import Mathlib.Data.List.Induction
import Mathlib.Data.List.Sort
import MeshWeaver.Lib.Json

/-!
# Directories

A directory is a dictionary of files, changed step by step. `listing` are the files whose names match a pattern, the
last name first. `put` replaces a file in the listing or inserts it at its place, a removal filters, and a step on
another file does nothing. Keeping the first files after every `put` loses nothing of what they would be at the end
(`take_put`).
-/

namespace MeshWeaver.Lib

abbrev Directory (α : Type) := Dict Text α

inductive FileStep (α : Type) where
  | write (name : Text) (content : α)
  | fsync (name : Text)
  | remove (name : Text)
  | rename (source target : Text)

variable {α : Type}

/-- What a step does; a file that is not there is neither removed nor renamed. -/
def FileStep.apply (d : Directory α) : FileStep α → Directory α
  | .write name content => d.insert name content
  | .fsync _ => d
  | .remove name => d.erase name
  | .rename source target =>
    match d.get? source with
    | some content => (d.erase source).insert target content
    | none => d

def FileStep.run (d : Directory α) (steps : List (FileStep α)) : Directory α := steps.foldl FileStep.apply d

theorem FileStep.run_append (d : Directory α) (steps steps' : List (FileStep α)) :
    run d (steps ++ steps') = run (run d steps) steps' := List.foldl_append

namespace Directory

/-! ### Descending lists -/

def Descending (files : List (Text × α)) : Prop := files.Pairwise fun a b => Text.precedes a.1 b.1 = false

theorem ne_of_not_precedes {a b : Text} (h : Text.precedes a b = false) : a ≠ b := by
  rintro rfl
  rw [Text.precedes_refl] at h
  cases h

theorem not_precedes_trans {a b c : Text} (hab : Text.precedes a b = false) (hbc : Text.precedes b c = false) :
    Text.precedes a c = false := by
  by_contra hac
  have hcb := (Text.precedes_total b c).resolve_left (by simp [hbc])
  have hprecedes := Text.precedes_trans (Bool.of_not_eq_false hac) hcb
  rw [hab] at hprecedes
  cases hprecedes

variable {files : List (Text × α)} {file : Text × α}

theorem descending_cons {first : Text × α} :
    Descending (first :: files) ↔
      (∀ file ∈ files, Text.precedes first.1 file.1 = false) ∧ Descending files := List.pairwise_cons

theorem Descending.filter (h : Descending files) (p : Text × α → Bool) :
    Descending (files.filter p) := List.Pairwise.filter p h

theorem Descending.nodup (h : Descending files) : (files.map Prod.fst).Nodup :=
  List.pairwise_map.mpr (h.imp ne_of_not_precedes)

theorem Descending.eq_of_mem_iff {files files' : List (Text × α)} (h : Descending files)
    (h' : Descending files') (hmem : ∀ file, file ∈ files ↔ file ∈ files') : files = files' := by
  have hperm : files.Perm files' :=
    (List.perm_ext_iff_of_nodup h.nodup.of_map h'.nodup.of_map).mpr hmem
  refine hperm.eq_of_pairwise (fun a b ha hb hab hba => ?_) h h'
  exact absurd (Text.precedes_total a.1 b.1) (by simp [hab, hba])

theorem Descending.mem_above_iff {above below : List (Text × α)}
    (h : Descending (above ++ file :: below)) (other : Text × α) :
    other ∈ above ↔ other ∈ above ++ file :: below ∧ Text.precedes other.1 file.1 = false := by
  obtain ⟨-, hrest, habove⟩ := List.pairwise_append.mp h
  constructor
  · exact fun hother => ⟨List.mem_append_left _ hother, habove other hother file List.mem_cons_self⟩
  · rintro ⟨hother, hnot⟩
    refine (List.mem_append.mp hother).resolve_right fun hother => ?_
    rcases List.mem_cons.mp hother with rfl | hother
    · exact ne_of_not_precedes hnot rfl
    · have hback := not_precedes_trans ((descending_cons.mp hrest).1 other hother) hnot
      exact ne_of_not_precedes hback rfl

theorem Descending.ne_of_mem {above below : List (Text × α)}
    (h : Descending (above ++ file :: below)) {other : Text × α} (hother : other ∈ above ++ below) :
    other.1 ≠ file.1 := by
  obtain ⟨-, hrest, habove⟩ := List.pairwise_append.mp h
  rcases List.mem_append.mp hother with hother | hother
  · exact ne_of_not_precedes (habove other hother file List.mem_cons_self)
  · exact (ne_of_not_precedes ((descending_cons.mp hrest).1 other hother)).symm

/-- The file replaces the one of its name, or goes to its place. -/
def put (name : Text) (content : α) : List (Text × α) → List (Text × α)
  | [] => [(name, content)]
  | file :: files =>
    if file.1 = name then (name, content) :: files
    else if Text.precedes file.1 name then (name, content) :: file :: files
    else file :: put name content files

variable {name : Text} {content : α} {files : List (Text × α)}

theorem Descending.mem_put (h : Descending files) (file : Text × α) :
    file ∈ put name content files ↔ file = (name, content) ∨ file.1 ≠ name ∧ file ∈ files := by
  induction files with
  | nil => simp [put]
  | cons first files ih =>
    obtain ⟨hfirst, hrest⟩ := descending_cons.mp h
    rw [put]
    split_ifs with hsame hbefore
    · have hother : ∀ file ∈ files, file.1 ≠ name := fun file hfile heq =>
        ne_of_not_precedes (hfirst file hfile) (hsame.trans heq.symm)
      simp only [List.mem_cons]
      constructor
      · exact Or.imp_right fun hfile => ⟨hother file hfile, Or.inr hfile⟩
      · exact Or.imp_right fun ⟨hne, hfile⟩ => hfile.resolve_left fun heq => hne (heq ▸ hsame)
    · have hother : ∀ file ∈ first :: files, file.1 ≠ name := by
        rintro file hfile heq
        rcases List.mem_cons.mp hfile with rfl | hfile
        · exact hsame heq
        · have hgreater := hfirst file hfile
          rw [heq, hbefore] at hgreater
          cases hgreater
      rw [List.mem_cons]
      exact or_congr_right ⟨fun hfile => ⟨hother file hfile, hfile⟩, And.right⟩
    · rw [List.mem_cons, ih hrest, List.mem_cons]
      constructor
      · rintro (rfl | hput | ⟨hne, hfile⟩)
        · exact Or.inr ⟨hsame, Or.inl rfl⟩
        · exact Or.inl hput
        · exact Or.inr ⟨hne, Or.inr hfile⟩
      · rintro (hput | ⟨hne, rfl | hfile⟩)
        · exact Or.inr (Or.inl hput)
        · exact Or.inl rfl
        · exact Or.inr (Or.inr ⟨hne, hfile⟩)

theorem Descending.put (h : Descending files) (name : Text) (content : α) : Descending (put name content files) := by
  induction files with
  | nil => exact List.pairwise_singleton _ _
  | cons first files ih =>
    obtain ⟨hfirst, hrest⟩ := descending_cons.mp h
    rw [Directory.put]
    split_ifs with hsame hbefore
    · subst hsame
      exact descending_cons.mpr ⟨hfirst, hrest⟩
    · have hgreater : Text.precedes name first.1 = false := by
        by_contra hprecedes
        exact hsame (Text.precedes_antisymm hbefore (Bool.of_not_eq_false hprecedes))
      refine descending_cons.mpr ⟨fun file hfile => ?_, h⟩
      rcases List.mem_cons.mp hfile with rfl | hfile
      · exact hgreater
      · exact not_precedes_trans hgreater (hfirst file hfile)
    · refine descending_cons.mpr ⟨fun file hfile => ?_, ih hrest⟩
      rcases (hrest.mem_put file).mp hfile with rfl | ⟨-, hfile⟩
      · exact Bool.of_not_eq_true hbefore
      · exact hfirst file hfile

theorem Descending.length_put (h : Descending files) (name : Text) (content : α) :
    (Directory.put name content files).length = (files.filter fun file => file.1 ≠ name).length + 1 := by
  have hnotMem : (name, content) ∉ files.filter fun file => file.1 ≠ name := by simp
  have hnodup : ((name, content) :: files.filter fun file => file.1 ≠ name).Nodup :=
    List.nodup_cons.mpr ⟨hnotMem, (h.filter _).nodup.of_map⟩
  refine ((List.perm_ext_iff_of_nodup (h.put name content).nodup.of_map hnodup).mpr fun file => ?_).length_eq
  rw [h.mem_put, List.mem_cons, List.mem_filter, decide_eq_true_eq, and_comm]

/-- **Keeping the first files** before a file is put makes no difference to the first files behind it. -/
theorem take_put (name : Text) (content : α) (files : List (Text × α)) (n : Nat) :
    (put name content (files.take n)).take n = (put name content files).take n := by
  induction files generalizing n with
  | nil => rw [List.take_nil]
  | cons first files ih =>
    cases n with
    | zero => rfl
    | succ n =>
      rw [List.take_succ_cons, put, put]
      split_ifs
      · rw [List.take_succ_cons, List.take_succ_cons, List.take_take, Nat.min_self]
      · rw [List.take_succ_cons, List.take_succ_cons, List.cons.injEq]
        refine ⟨rfl, ?_⟩
        cases n with
        | zero => rfl
        | succ n =>
          rw [List.take_succ_cons, List.take_succ_cons, List.take_take, Nat.min_eq_left (Nat.le_succ n)]
      · rw [List.take_succ_cons, List.take_succ_cons, ih]

/-! ### Many files -/

section
variable {ε : Type} (entry : ε → Text × α)

/-- The files that are left when the file of every event has been put. -/
def putAll (events : List ε) : List (Text × α) :=
  events.foldl (fun files e => put (entry e).1 (entry e).2 files) []

theorem putAll_concat (events : List ε) (e : ε) :
    putAll entry (events ++ [e]) = put (entry e).1 (entry e).2 (putAll entry events) := List.foldl_concat ..

theorem descending_putAll (events : List ε) : Descending (putAll entry events) := by
  induction events using List.reverseRecOn with
  | nil => exact List.Pairwise.nil
  | append_singleton events e ih =>
    rw [putAll_concat]
    exact ih.put _ _

variable {entry}

theorem mem_putAll {events : List ε} :
    file ∈ putAll entry events ↔
      ∃ before e after, events = before ++ e :: after ∧ entry e = file ∧
        ∀ later ∈ after, (entry later).1 ≠ file.1 := by
  induction events using List.reverseRecOn with
  | nil => simp [putAll]
  | append_singleton events last ih =>
    rw [putAll_concat, (descending_putAll entry events).mem_put, ih]
    constructor
    · rintro (rfl | ⟨hne, before, e, after, rfl, hentry, hafter⟩)
      · exact ⟨events, last, [], rfl, rfl, nofun⟩
      · refine ⟨before, e, after ++ [last], by simp, hentry, fun later hlater => ?_⟩
        rcases List.mem_append.mp hlater with hlater | hlater
        · exact hafter later hlater
        · rw [List.mem_singleton.mp hlater]
          exact hne.symm
    · rintro ⟨before, e, after, hsplit, hentry, hafter⟩
      rcases List.eq_nil_or_concat' after with rfl | ⟨after, x, rfl⟩
      · obtain ⟨-, rfl⟩ := List.append_singleton_inj.mp hsplit
        exact Or.inl hentry.symm
      · rw [← List.cons_append, ← List.append_assoc] at hsplit
        obtain ⟨rfl, rfl⟩ := List.append_singleton_inj.mp hsplit
        rw [List.forall_mem_append, List.forall_mem_singleton] at hafter
        exact Or.inr ⟨hafter.2.symm, before, e, after, rfl, hentry, hafter.1⟩

end

theorem findSome?_take_eq_some_iff {β γ : Type} {f : β → Option γ} {above below : List β} {a : β} {r : γ}
    (habove : ∀ b ∈ above, f b ≠ some r) (hbelow : ∀ b ∈ below, f b ≠ some r) (n : Nat) :
    ((above ++ a :: below).take n).findSome? f = some r ↔
      above.length < n ∧ (∀ b ∈ above, f b = none) ∧ f a = some r := by
  have hnot : ∀ {l : List β}, (∀ b ∈ l, f b ≠ some r) → l.findSome? f ≠ some r := by
    intro l hl hfound
    obtain ⟨b, hb, hr⟩ := List.exists_of_findSome?_eq_some hfound
    exact hl b hb hr
  rcases Nat.lt_or_ge above.length n with hlt | hge
  · have htake : (above ++ a :: below).take n = above ++ a :: below.take (n - above.length - 1) := by
      obtain ⟨k, rfl⟩ := Nat.exists_eq_add_of_lt hlt
      rw [List.take_append, List.take_of_length_le (by omega),
        show above.length + k + 1 - above.length = k + 1 by omega, List.take_succ_cons, Nat.add_sub_cancel]
    rw [htake, List.findSome?_append, List.findSome?_cons]
    cases hfound : above.findSome? f with
    | some r' =>
      have hne : r' ≠ r := fun h => hnot habove (h ▸ hfound)
      obtain ⟨b, hb, hr⟩ := List.exists_of_findSome?_eq_some hfound
      refine iff_of_false (fun h => hne (Option.some_inj.mp h)) fun h => ?_
      rw [h.2.1 b hb] at hr
      cases hr
    | none =>
      cases ha : f a with
      | some r' => exact ⟨fun h => ⟨hlt, List.findSome?_eq_none_iff.mp hfound, h⟩, fun h => h.2.2⟩
      | none =>
        exact iff_of_false (hnot fun b hb => hbelow b (List.mem_of_mem_take hb)) fun h => nomatch h.2.2
  · rw [List.take_append_of_le_length hge]
    exact iff_of_false (hnot fun b hb => habove b (List.mem_of_mem_take hb)) fun h => by omega

/-! ### Listings -/

variable (isListed : Text → Bool)

/-- `sorted(glob(pattern), reverse=True)`, with what is in the files -/
def listing (d : Directory α) : List (Text × α) :=
  (d.items.filter fun file => isListed file.1).insertionSort fun a b => Text.precedes b.1 a.1

variable {isListed} {d : Directory α}

theorem mem_listing (file : Text × α) :
    file ∈ listing isListed d ↔ d.get? file.1 = some file.2 ∧ isListed file.1 = true := by
  rw [listing, List.mem_insertionSort, List.mem_filter, Dict.mem_items_iff]

theorem descending_listing (d : Directory α) : Descending (listing isListed d) := by
  let r : Text × α → Text × α → Prop := fun a b => Text.precedes b.1 a.1
  have : Std.Total r := ⟨fun a b => Text.precedes_total b.1 a.1⟩
  have : IsTrans _ r := ⟨fun _ _ _ hab hbc => Text.precedes_trans hbc hab⟩
  have hsorted : (listing isListed d).Pairwise r := List.pairwise_insertionSort r _
  have hnodup : (listing isListed d).Pairwise fun a b => a.1 ≠ b.1 := by
    have hperm := List.perm_insertionSort r (d.items.filter fun file => isListed file.1)
    have hkeys : ((d.items.filter fun file => isListed file.1).map Prod.fst).Nodup :=
      d.nodup.sublist (List.Sublist.map _ List.filter_sublist)
    exact List.pairwise_map.mp ((hperm.map Prod.fst).nodup_iff.mpr hkeys)
  refine (hsorted.and hnodup).imp fun {a b} ⟨hba, hne⟩ => ?_
  by_contra hab
  exact hne (Text.precedes_antisymm (Bool.of_not_eq_false hab) hba)

theorem listing_eq (h : Descending files)
    (hmem : ∀ name content, (name, content) ∈ files ↔ d.get? name = some content ∧ isListed name = true) :
    listing isListed d = files :=
  (descending_listing d).eq_of_mem_iff h fun file => (mem_listing file).trans (hmem file.1 file.2).symm

theorem listing_write_unlisted (h : isListed name = false) (content : α) :
    listing isListed (d.insert name content) = listing isListed d := by
  refine listing_eq (descending_listing d) fun name' content' => ?_
  rw [mem_listing, Dict.get?_insert]
  split_ifs with heq
  · subst heq
    simp [h]
  · rfl

theorem listing_remove (name : Text) :
    listing isListed (d.erase name) = (listing isListed d).filter fun file => file.1 ≠ name := by
  refine listing_eq ((descending_listing d).filter _) fun name' content' => ?_
  rw [List.mem_filter, mem_listing, Dict.get?_erase, decide_eq_true_eq]
  split_ifs with heq
  · simp [heq]
  · simp [heq]

theorem listing_write (h : isListed name = true) (content : α) :
    listing isListed (d.insert name content) = put name content (listing isListed d) := by
  refine listing_eq ((descending_listing d).put name content) fun name' content' => ?_
  rw [(descending_listing d).mem_put, mem_listing, Dict.get?_insert, Prod.mk.injEq]
  split_ifs with heq
  · subst heq
    simp [h, eq_comm]
  · simp [heq]

theorem listing_rename {source target : Text} (hsource : isListed source = false)
    (htarget : isListed target = true) (hcontent : d.get? source = some content) :
    listing isListed (FileStep.apply d (.rename source target)) = put target content (listing isListed d) := by
  rw [FileStep.apply, hcontent]
  rw [listing_write htarget, listing_remove, List.filter_eq_self.mpr]
  intro file hfile
  have hlisted := ((mem_listing file).mp hfile).2
  rw [decide_eq_true_eq]
  rintro rfl
  rw [hsource] at hlisted
  cases hlisted

theorem Descending.put_filter (h : Descending files) (name : Text) (content : α) :
    Directory.put name content (files.filter fun file => file.1 ≠ name) = Directory.put name content files := by
  refine ((h.filter _).put name content).eq_of_mem_iff (h.put name content) fun file => ?_
  rw [(h.filter _).mem_put, h.mem_put, List.mem_filter, decide_eq_true_eq]
  exact or_congr_right ⟨fun ⟨hne, hfile, _⟩ => ⟨hne, hfile⟩, fun ⟨hne, hfile⟩ => ⟨hne, hfile, hne⟩⟩

theorem listing_removes (isListed : Text → Bool) (d : Directory α) (names : List Text) :
    listing isListed (FileStep.run d (names.map .remove)) =
      (listing isListed d).filter fun file => file.1 ∉ names := by
  induction names generalizing d with
  | nil => simp [FileStep.run]
  | cons name names ih =>
    refine (ih (d.erase name)).trans ?_
    rw [listing_remove, List.filter_filter]
    simp [Bool.and_comm]

theorem Descending.filter_notMem (h : Descending files) (n j : Nat) :
    (files.filter fun file => file.1 ∉ ((files.drop n).take j).map Prod.fst) =
      files.take n ++ files.drop (n + j) := by
  have hsplit : files = files.take n ++ ((files.drop n).take j ++ files.drop (n + j)) := by
    rw [← List.drop_drop, List.take_append_drop, List.take_append_drop]
  have hnodup := h.nodup
  generalize files.take n = kept, (files.drop n).take j = gone, files.drop (n + j) = rest at hsplit ⊢
  subst hsplit
  rw [List.map_append, List.map_append] at hnodup
  obtain ⟨-, hrest, hkept⟩ := List.nodup_append.mp hnodup
  obtain ⟨-, -, hgone⟩ := List.nodup_append.mp hrest
  have hkeep : (kept.filter fun file => file.1 ∉ gone.map Prod.fst) = kept :=
    List.filter_eq_self.mpr fun file hfile => decide_eq_true fun hmem =>
      hkept file.1 (List.mem_map_of_mem hfile) file.1 (List.mem_append_left _ hmem) rfl
  have hdrop : (gone.filter fun file => file.1 ∉ gone.map Prod.fst) = [] :=
    List.filter_eq_nil_iff.mpr fun file hfile => by
      rw [decide_eq_true_eq, not_not]
      exact List.mem_map_of_mem hfile
  have hlast : (rest.filter fun file => file.1 ∉ gone.map Prod.fst) = rest :=
    List.filter_eq_self.mpr fun file hfile => decide_eq_true fun hmem =>
      hgone file.1 hmem file.1 (List.mem_map_of_mem hfile) rfl
  rw [List.filter_append, List.filter_append, hkeep, hdrop, hlast, List.nil_append]

end Directory

end MeshWeaver.Lib

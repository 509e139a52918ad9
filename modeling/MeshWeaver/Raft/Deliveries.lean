import MeshWeaver.Lib.Run
import MeshWeaver.Lib.Window
import MeshWeaver.Raft.Reconcile

/-!
# Requests of one leader in any order

A follower gets requests that were all cut from one leader log `L` (`Cut`): late, twice, or in another order. Its log
matches `L` term by term up to any index where the terms are equal (`TermsMatch`), which does not say that the entries
are the same. On the terms above the snapshot of `L`, accepting a cut that ends at `last` is `Lib.overlay terms last`
(`Reached.deliver`), so the order of accepted requests does not matter (`deliveries_commute`).
-/

namespace MeshWeaver

open Lib

namespace RaftLog

/-- A request cut from the log `L`: the entries with the indexes `prev + 1, ..., last`. -/
structure Cut (L : RaftLog) where
  prev : Int
  last : Int
  snapshot_le : L.snapshotLastIndex ≤ prev
  prev_le : prev ≤ last
  last_le : last ≤ L.lastIndex

namespace Cut

variable {L : RaftLog} (c : Cut L)

def prevTerm : Int := L.getTerm c.prev

def entries : List LogEntry := (L.sliceFrom (c.prev + 1)).take (c.last - c.prev).toNat

/-- The request arrives at the log `F`: the log afterwards, and the answer. -/
def deliver (F : RaftLog) : RaftLog × Except PyError (Bool × Int) :=
  F.reconcileFollowerEntries c.prev c.prevTerm c.entries

def after (F : RaftLog) : RaftLog := (c.deliver F).1

def acceptedBy (F : RaftLog) : Bool :=
  match (c.deliver F).2 with
  | .ok (success, _) => success
  | .error _ => false

end Cut

variable {L F F' : RaftLog}

def termsAbove (L F : RaftLog) : List Int :=
  (F.entries.drop L.snapshotLastIndex.toNat).map LogEntry.term

/-- Log matching, for terms: where `F` and `L` have the same term, they have the same terms at all
smaller indexes above the snapshot of `L`. -/
def TermsMatch (F L : RaftLog) : Prop :=
  ∀ i, L.snapshotLastIndex < i → i ≤ F.lastIndex → i ≤ L.lastIndex → F.getTerm i = L.getTerm i →
    ∀ j, L.snapshotLastIndex < j → j ≤ i → F.getTerm j = L.getTerm j

def SameTerms (F F' : RaftLog) : Prop :=
  F.lastIndex = F'.lastIndex ∧ ∀ i, F.getTerm i = F'.getTerm i

/-! ### The entries of a cut -/

namespace Cut

theorem entries_eq (c : Cut L) (hL : L.Contiguous) :
    c.entries = (L.entries.take (c.last - L.snapshotLastIndex).toNat).drop (c.prev - L.snapshotLastIndex).toNat := by
  have hlast := lastIndex_eq hL
  have hle := c.snapshot_le
  rw [entries, sliceFrom, List.drop_take]
  by_cases hend : c.prev + 1 > L.lastIndex
  · rw [if_pos hend, List.drop_of_length_le (by omega), List.take_nil, List.take_nil]
  · rw [if_neg hend, show (max 0 (c.prev + 1 - L.snapshotLastIndex - 1)).toNat =
      (c.prev - L.snapshotLastIndex).toNat by omega]
    congr 1
    omega

theorem entries_contiguous (c : Cut L) (hL : L.Contiguous) : ContiguousFrom (c.prev + 1) c.entries := by
  have hle := c.snapshot_le
  have := (ContiguousFrom.take hL (c.last - L.snapshotLastIndex).toNat).drop
    (c.prev - L.snapshotLastIndex).toNat
  rw [← c.entries_eq hL] at this
  rwa [show L.snapshotLastIndex + 1 + ((c.prev - L.snapshotLastIndex).toNat : Int) = c.prev + 1 by
    omega] at this

end Cut

theorem getTerm_add (L : RaftLog) (h0 : 0 ≤ L.snapshotLastIndex) (k : Nat) :
    L.getTerm (L.snapshotLastIndex + 1 + k) = ((L.entries[k]?).map LogEntry.term).getD 0 := by
  rw [getTerm, if_neg (by omega), if_neg (by omega), getEntry_add]
  cases L.entries[k]? <;> rfl

/-! ### One delivery -/

/-- What the follower's log keeps while requests of `L` arrive, starting from `F`. -/
structure Reached (L F F' : RaftLog) : Prop where
  uncompacted : F'.Uncompacted
  below : F'.entries.take L.snapshotLastIndex.toNat = F.entries.take L.snapshotLastIndex.toNat
  agree : ∀ (k : Nat) (t : Int), (termsAbove L F')[k]? = some t →
    (L.entries.map LogEntry.term)[k]? = some t →
    (L.entries.map LogEntry.term).take (k + 1) <+: termsAbove L F'

/-- The stored entries carry the terms of `L` up to the index `i`. -/
def Covers (L F : RaftLog) (i : Int) : Prop :=
  (L.entries.map LogEntry.term).take (i - L.snapshotLastIndex).toNat <+: termsAbove L F

theorem getElem?_termsAbove (L F : RaftLog) (k : Nat) :
    (termsAbove L F)[k]? = (F.entries[L.snapshotLastIndex.toNat + k]?).map LogEntry.term := by
  rw [termsAbove, List.getElem?_map, List.getElem?_drop]

theorem Covers.getElem? {i : Int} (hcov : Covers L F i) {k : Nat} {t : Int} (hk : k < (i - L.snapshotLastIndex).toNat)
    (ht : (L.entries.map LogEntry.term)[k]? = some t) :
    ∃ e, F.entries[L.snapshotLastIndex.toNat + k]? = some e ∧ e.term = t := by
  have hsome : ((L.entries.map LogEntry.term).take (i - L.snapshotLastIndex).toNat)[k]? =
      some t := by
    rw [List.getElem?_take, if_pos hk, ht]
  have := getElem?_of_isPrefix hcov hsome
  rw [getElem?_termsAbove, Option.map_eq_some_iff] at this
  exact this

theorem Covers.le_length (hL : L.Contiguous) {i : Int} (hcov : Covers L F i)
    (hi : L.snapshotLastIndex < i) (hlast : i ≤ L.lastIndex) : i ≤ F.entries.length := by
  have := hcov.length_le
  have := lastIndex_eq hL
  simp only [termsAbove, List.length_take, List.length_map, List.length_drop] at *
  omega

theorem getTerm_of_getElem? (h0 : 0 ≤ L.snapshotLastIndex) {k : Nat} {t : Int}
    (h : (L.entries.map LogEntry.term)[k]? = some t) : L.getTerm (L.snapshotLastIndex + 1 + k) = t := by
  rw [getTerm_add L h0, ← List.getElem?_map, h]
  rfl

theorem Reached.start (h0 : 0 ≤ L.snapshotLastIndex) (hL : L.Contiguous) (hF : F.Uncompacted)
    (hmatch : TermsMatch F L) : Reached L F F := by
  refine ⟨hF, rfl, fun k t hk hk' => ?_⟩
  have hlen : k < L.entries.length := by
    have := (List.getElem?_eq_some_iff.mp hk').1
    rwa [List.length_map] at this
  have hterm : ∀ j, F.getTerm (L.snapshotLastIndex + 1 + (j : Nat)) =
      ((termsAbove L F)[j]?).getD 0 := by
    intro j
    rw [hF.getTerm, termAt, if_neg (by omega), getElem?_termsAbove]
    congr 4
    omega
  have hlenF : L.snapshotLastIndex.toNat + k < F.entries.length := by
    rw [getElem?_termsAbove] at hk
    by_contra hge
    rw [List.getElem?_eq_none (by omega)] at hk
    simp at hk
  have hsame := hmatch (L.snapshotLastIndex + 1 + k) (by omega) (by rw [hF.lastIndex]; omega)
    (by rw [lastIndex_eq hL]; omega) (by rw [hterm, hk, getTerm_of_getElem? h0 hk']; rfl)
  rw [List.prefix_iff_getElem?]
  intro j hj
  rw [List.length_take, List.length_map] at hj
  have := hsame (L.snapshotLastIndex + 1 + j) (by omega) (by omega)
  rw [hterm, getTerm_of_getElem? h0 (List.getElem?_eq_getElem (by rw [List.length_map]; omega))] at this
  rw [List.getElem_take]
  have hsome : j < (termsAbove L F).length := by
    simp only [termsAbove, List.length_map, List.length_drop]
    omega
  rw [List.getElem?_eq_getElem hsome, Option.getD_some] at this
  rw [List.getElem?_eq_getElem hsome, this]

section delivery
variable {c : Cut L}

theorem Cut.deliver_of_check (hL : L.Contiguous) (hF : F.Uncompacted)
    (hcheck : F.checkConsistency c.prev c.prevTerm = true) :
    c.deliver F = (F.merged c.prev.toNat c.entries,
        .ok (true, (F.merged c.prev.toNat c.entries).lastIndex)) ∧
      (F.merged c.prev.toNat c.entries).Uncompacted := by
  obtain ⟨hprev, hlen⟩ := prev_le_length hF hcheck
  have hnew : ContiguousFrom (F.snapshotLastIndex + 1 + c.prev.toNat) c.entries := by
    have := c.entries_contiguous hL
    rwa [hF.noSnapshot, show (0 : Int) + 1 + c.prev.toNat = c.prev + 1 by omega]
  refine ⟨?_, hF.noSnapshot, ?_⟩
  · rw [Cut.deliver, reconcileFollowerEntries, if_pos hcheck,
      reconcileLoop_eq_merge c.entries F c.prev.toNat hF.contiguous hlen hnew]
  · have := merged_contiguous hF.contiguous hlen hnew
    rwa [Contiguous, show (F.merged c.prev.toNat c.entries).snapshotLastIndex = 0 from
      hF.noSnapshot] at this

theorem Cut.deliver_of_not_check (hcheck : ¬ F.checkConsistency c.prev c.prevTerm = true) :
    c.deliver F = (F, .ok (false, F.lastIndex)) := by
  rw [Cut.deliver, reconcileFollowerEntries, if_neg hcheck]

theorem Cut.acceptedBy_iff (hL : L.Contiguous) (hF : F.Uncompacted) :
    c.acceptedBy F = true ↔ F.checkConsistency c.prev c.prevTerm = true := by
  by_cases hcheck : F.checkConsistency c.prev c.prevTerm = true
  · simp [Cut.acceptedBy, (Cut.deliver_of_check hL hF hcheck).1, hcheck]
  · simp [Cut.acceptedBy, Cut.deliver_of_not_check hcheck, hcheck]

theorem Cut.map_entries (c : Cut L) (hL : L.Contiguous) :
    c.entries.map LogEntry.term =
      ((L.entries.map LogEntry.term).take (c.last - L.snapshotLastIndex).toNat).drop
        (c.prev - L.snapshotLastIndex).toNat := by
  rw [c.entries_eq hL, List.map_drop, List.map_take]

theorem drop_merged (h0 : 0 ≤ L.snapshotLastIndex) (hF : F.Uncompacted)
    (hcheck : F.checkConsistency c.prev c.prevTerm = true) :
    (F.merged c.prev.toNat c.entries).entries.take L.snapshotLastIndex.toNat =
        F.entries.take L.snapshotLastIndex.toNat ∧
      (F.merged c.prev.toNat c.entries).entries.drop L.snapshotLastIndex.toNat =
        (F.entries.drop L.snapshotLastIndex.toNat).take (c.prev - L.snapshotLastIndex).toNat ++
          mergeBy LogEntry.term ((F.entries.drop L.snapshotLastIndex.toNat).drop
            (c.prev - L.snapshotLastIndex).toNat) c.entries := by
  have hle := c.snapshot_le
  obtain ⟨hprev, hlen⟩ := prev_le_length hF hcheck
  have hsplit : c.prev.toNat =
      L.snapshotLastIndex.toNat + (c.prev - L.snapshotLastIndex).toNat := by omega
  have hs : L.snapshotLastIndex.toNat ≤ (F.entries.take c.prev.toNat).length := by
    rw [List.length_take, min_eq_left hlen]
    omega
  constructor
  · rw [merged, List.take_append_of_le_length hs, List.take_take, min_eq_left (by omega)]
  · rw [merged, List.drop_append_of_le_length hs, List.drop_take, List.drop_drop, ← hsplit]
    congr 2
    omega

variable (h0 : 0 ≤ L.snapshotLastIndex) (hL : L.Contiguous)
include h0 hL

section

variable (h : Reached L F F')
include h

theorem Reached.covers_prev (hcheck : F'.checkConsistency c.prev c.prevTerm = true) : Covers L F' c.prev := by
  have hle := c.snapshot_le
  have hlast := (c.prev_le.trans c.last_le).trans_eq (lastIndex_eq hL)
  rcases Int.lt_or_eq_of_le hle with hlt | heq
  · obtain ⟨k, hk⟩ := exists_offset hlt
    rcases h.uncompacted.checkConsistency_iff.mp hcheck with hzero | ⟨-, e, he, hterm⟩
    · omega
    rw [Covers, show (c.prev - L.snapshotLastIndex).toNat = k + 1 by omega]
    have hsome : (L.entries.map LogEntry.term)[k]? = some e.term := by
      have hlt' : k < (L.entries.map LogEntry.term).length := by
        rw [List.length_map]
        omega
      have := getTerm_of_getElem? h0 (List.getElem?_eq_getElem hlt')
      rw [List.getElem?_eq_getElem hlt', hterm, Cut.prevTerm, hk, this]
    refine h.agree k e.term ?_ hsome
    rw [getElem?_termsAbove, show L.snapshotLastIndex.toNat + k = (c.prev - 1).toNat by omega, he]
    rfl
  · rw [Covers, ← heq, sub_self]
    exact List.nil_prefix

theorem Reached.overlay (hcheck : F'.checkConsistency c.prev c.prevTerm = true) :
    termsAbove L (c.after F') = overlay (L.entries.map LogEntry.term)
      (c.last - L.snapshotLastIndex).toNat (termsAbove L F') := by
  have hpl := c.prev_le
  have hlast := c.last_le.trans_eq (lastIndex_eq hL)
  rw [Cut.after, (Cut.deliver_of_check hL h.uncompacted hcheck).1, termsAbove,
    (drop_merged h0 h.uncompacted hcheck).2]
  refine map_merge_window (h.covers_prev h0 hL hcheck) (c.map_entries hL) (by omega) ?_
  rw [List.length_map]
  omega

theorem Reached.after (c : Cut L) : Reached L F (c.after F') := by
  by_cases hcheck : F'.checkConsistency c.prev c.prevTerm = true
  · have hdeliver := Cut.deliver_of_check hL h.uncompacted hcheck
    have hover := h.overlay h0 hL hcheck
    refine ⟨?_, ?_, fun k t hk hk' => ?_⟩
    · rw [Cut.after, hdeliver.1]
      exact hdeliver.2
    · rw [Cut.after, hdeliver.1, (drop_merged h0 h.uncompacted hcheck).1, h.below]
    · rw [hover] at hk ⊢
      by_cases hpre : (L.entries.map LogEntry.term).take (c.last - L.snapshotLastIndex).toNat <+:
          termsAbove L F'
      · rw [overlay_of_isPrefix hpre] at hk ⊢
        exact h.agree k t hk hk'
      · rw [overlay_of_not_isPrefix hpre] at hk ⊢
        have hlt := (List.getElem?_eq_some_iff.mp hk).1
        rw [List.length_take] at hlt
        exact List.take_prefix_take_left (by omega)
  · rwa [Cut.after, Cut.deliver_of_not_check hcheck]

theorem Reached.covers_after {i : Int} (hi : L.snapshotLastIndex ≤ i) (hcov : Covers L F' i) (c : Cut L) :
    Covers L (c.after F') i ∧ F'.entries.take i.toNat <+: (c.after F').entries := by
  by_cases hcheck : F'.checkConsistency c.prev c.prevTerm = true
  · constructor
    · rw [Covers, h.overlay h0 hL hcheck]
      exact take_isPrefix_overlay_of_isPrefix hcov _
    · obtain ⟨htake, hdrop⟩ := drop_merged h0 h.uncompacted hcheck
      have hkeep := take_isPrefix_merge_window hcov (c.map_entries hL)
      rw [← hdrop] at hkeep
      rw [Cut.after, (Cut.deliver_of_check hL h.uncompacted hcheck).1,
        show i.toNat = L.snapshotLastIndex.toNat + (i - L.snapshotLastIndex).toNat by omega,
        List.take_add, ← htake]
      conv_rhs => rw [← List.take_append_drop L.snapshotLastIndex.toNat
        (F'.merged c.prev.toNat c.entries).entries]
      exact (List.prefix_append_right_inj _).mpr hkeep
  · rw [Cut.after, Cut.deliver_of_not_check hcheck]
    exact ⟨hcov, List.take_prefix _ _⟩

theorem Reached.check_again (hF : F.Uncompacted)
    (hcheck : F.checkConsistency c.prev c.prevTerm = true) (hcov : Covers L F' c.last) :
    F'.checkConsistency c.prev c.prevTerm = true := by
  have hle := c.snapshot_le
  have hpl := c.prev_le
  have hlast := c.last_le.trans_eq (lastIndex_eq hL)
  rw [h.uncompacted.checkConsistency_iff]
  rcases hF.checkConsistency_iff.mp hcheck with hzero | ⟨hpos, e, he, hterm⟩
  · exact Or.inl hzero
  · refine Or.inr ⟨hpos, ?_⟩
    rcases Int.lt_or_eq_of_le hle with hlt | heq
    · obtain ⟨k, hk⟩ := exists_offset hlt
      have hlt' : k < (L.entries.map LogEntry.term).length := by
        rw [List.length_map]
        omega
      obtain ⟨f, hf, hfterm⟩ := hcov.getElem? (by omega) (List.getElem?_eq_getElem hlt')
      refine ⟨f, ?_, ?_⟩
      · rw [show (c.prev - 1).toNat = L.snapshotLastIndex.toNat + k by omega, hf]
      · rw [hfterm, Cut.prevTerm, hk, getTerm_of_getElem? h0 (List.getElem?_eq_getElem hlt')]
    · -- the previous index is the snapshot's, below which nothing ever changes
      refine ⟨e, ?_, hterm⟩
      have := congrArg (fun l => l[(c.prev - 1).toNat]?) h.below
      simp only [List.getElem?_take] at this
      rw [if_pos (by omega), if_pos (by omega), he] at this
      exact this

theorem Reached.deliver_again (hcheck : F'.checkConsistency c.prev c.prevTerm = true) (hcov : Covers L F' c.last) :
    c.after F' = F' := by
  have hle := c.snapshot_le
  have hlen := hcov.length_le
  have hnew := c.map_entries hL
  rw [Cut.after, (Cut.deliver_of_check hL h.uncompacted hcheck).1]
  apply merged_eq_self
  · rw [conflicts_iff]
    rintro ⟨k, a, b, ha, hb, hne⟩
    rw [List.getElem?_drop] at ha
    have hb' := congrArg (fun l => l[k]?) hnew
    simp only [List.getElem?_map, hb, List.getElem?_drop, Option.map_some] at hb'
    have hb'' := getElem?_of_isPrefix hcov hb'.symm
    rw [getElem?_termsAbove, ← add_assoc, show L.snapshotLastIndex.toNat +
      (c.prev - L.snapshotLastIndex).toNat = c.prev.toNat by omega, ha] at hb''
    exact hne (Option.some.inj hb'')
  · have hnew' := congrArg List.length hnew
    simp only [termsAbove, List.length_take, List.length_map, List.length_drop] at hlen hnew' ⊢
    omega

end

end delivery

/-! ### Many deliveries -/

def Cut.afterAll (ds : List (Cut L)) (F : RaftLog) : RaftLog := run (fun log d => d.after log) F ds

theorem sameTerms_of_map (hF : F.Uncompacted) (hF' : F'.Uncompacted)
    (h : F.entries.map LogEntry.term = F'.entries.map LogEntry.term) : SameTerms F F' := by
  constructor
  · rw [hF.lastIndex, hF'.lastIndex]
    have := congrArg List.length h
    simp only [List.length_map] at this
    omega
  · intro i
    rw [hF.getTerm, hF'.getTerm, termAt, termAt, ← List.getElem?_map, ← List.getElem?_map, h]

theorem Reached.sameTerms {F₁ F₂ : RaftLog} (h₁ : Reached L F F₁) (h₂ : Reached L F F₂)
    (h : termsAbove L F₁ = termsAbove L F₂) : SameTerms F₁ F₂ := by
  apply sameTerms_of_map h₁.uncompacted h₂.uncompacted
  rw [← List.take_append_drop L.snapshotLastIndex.toNat F₁.entries,
    ← List.take_append_drop L.snapshotLastIndex.toNat F₂.entries, List.map_append, List.map_append,
    h₁.below, h₂.below]
  exact congrArg _ h

/-- What holds after further requests, once `c` has been accepted by `F`. -/
structure Delivered (F : RaftLog) (c : Cut L) (F' : RaftLog) : Prop where
  reached : Reached L F F'
  covers : Covers L F' c.last
  entries : (c.after F).entries.take c.last.toNat <+: F'.entries

section many
variable (h0 : 0 ≤ L.snapshotLastIndex) (hL : L.Contiguous)
include h0 hL

theorem Delivered.start {c : Cut L} (h : Reached L F F)
    (hcheck : F.checkConsistency c.prev c.prevTerm = true) : Delivered F c (c.after F) := by
  refine ⟨h.after h0 hL c, ?_, List.take_prefix _ _⟩
  rw [Covers, h.overlay h0 hL hcheck]
  exact take_isPrefix_overlay _ _ _

theorem Delivered.after {c : Cut L} (h : Delivered F c F') (d : Cut L) : Delivered F c (d.after F') := by
  have hi := c.snapshot_le.trans c.prev_le
  obtain ⟨hcov, hkeep⟩ := h.reached.covers_after h0 hL hi h.covers d
  refine ⟨h.reached.after h0 hL d, hcov, ?_⟩
  refine List.IsPrefix.trans ?_ hkeep
  rw [List.prefix_take_iff]
  exact ⟨h.entries, by simp⟩

theorem Delivered.getEntry_eq {c : Cut L} (hstart : Reached L F F)
    (hcheck : F.checkConsistency c.prev c.prevTerm = true) (h : Delivered F c F') {i : Int}
    (hi : i ≤ c.last) : F'.getEntry i = (c.after F).getEntry i := by
  have hle := c.snapshot_le
  have hpl := c.prev_le
  have hfirst := Delivered.start h0 hL hstart hcheck
  have hlen : c.last ≤ (c.after F).entries.length := by
    rcases Int.lt_or_eq_of_le (hle.trans hpl) with hlt | heq
    · exact hfirst.covers.le_length hL hlt c.last_le
    · -- an empty request at the snapshot: its previous index is in the log
      have hagain := hfirst.reached.check_again h0 hL hstart.uncompacted hcheck hfirst.covers
      have := prev_le_length hfirst.reached.uncompacted hagain
      omega
  rcases Int.lt_or_le 0 i with hpos | hneg
  · rw [h.reached.uncompacted.getEntry (by omega), hfirst.reached.uncompacted.getEntry (by omega)]
    have hlt : (i - 1).toNat < (c.after F).entries.length := by omega
    rw [List.getElem?_eq_getElem hlt]
    apply getElem?_of_isPrefix h.entries
    rw [List.getElem?_take, if_pos (by omega), List.getElem?_eq_getElem hlt]
  · rw [h.reached.uncompacted.getEntry_nonpos hneg, hfirst.reached.uncompacted.getEntry_nonpos hneg]

/-- **Requests cut from one leader log commute and are idempotent.** Accepted in both orders, two of
them leave the same terms. Once one has been accepted, it is accepted again after any further
requests `ds` and changes nothing, and the entries it covers stay as they are, whatever shorter
requests arrive. -/
theorem deliveries_commute (hF : F.Uncompacted) (hmatch : TermsMatch F L) :
    (∀ c d : Cut L, c.acceptedBy F = true → d.acceptedBy (c.after F) = true →
      d.acceptedBy F = true → c.acceptedBy (d.after F) = true →
      SameTerms (d.after (c.after F)) (c.after (d.after F))) ∧
    ∀ (c : Cut L) (ds : List (Cut L)), c.acceptedBy F = true →
      c.acceptedBy (Cut.afterAll ds (c.after F)) = true ∧
      c.after (Cut.afterAll ds (c.after F)) = Cut.afterAll ds (c.after F) ∧
      ∀ i ≤ c.last, (Cut.afterAll ds (c.after F)).getEntry i = (c.after F).getEntry i := by
  have hstart := Reached.start h0 hL hF hmatch
  constructor
  · intro c d hc hcd hd hdc
    have hafter := hstart.after h0 hL c
    have hafter' := hstart.after h0 hL d
    rw [Cut.acceptedBy_iff hL hF] at hc hd
    rw [Cut.acceptedBy_iff hL hafter.uncompacted] at hcd
    rw [Cut.acceptedBy_iff hL hafter'.uncompacted] at hdc
    apply (hafter.after h0 hL d).sameTerms (hafter'.after h0 hL c)
    rw [hafter.overlay h0 hL hcd, hstart.overlay h0 hL hc, hafter'.overlay h0 hL hdc,
      hstart.overlay h0 hL hd]
    exact Lib.overlay_comm _ _ _ _
  · intro c ds hc
    rw [Cut.acceptedBy_iff hL hF] at hc
    have hdone : Delivered F c (Cut.afterAll ds (c.after F)) :=
      Lib.run_invariant (I := Delivered F c) (fun _ d h => Delivered.after h0 hL h d)
        (Delivered.start h0 hL hstart hc) ds
    have hagain := hdone.reached.check_again h0 hL hF hc hdone.covers
    refine ⟨?_, hdone.reached.deliver_again h0 hL hagain hdone.covers, fun i hi => ?_⟩
    · rwa [Cut.acceptedBy_iff hL hdone.reached.uncompacted]
    · exact Delivered.getEntry_eq h0 hL hstart hc hdone hi

end many

/-- A leader's log, compacted up to index 1, and a follower's with another entry at index 3. -/
def leadingLog : RaftLog :=
  ⟨[writeEntry 2 1 "b", writeEntry 3 2 "c", writeEntry 4 2 "d"], 1, 1, 1, 1⟩

def staleLog : RaftLog := ⟨[writeEntry 1 1 "a", writeEntry 2 1 "b", writeEntry 3 1 "x"], 0, 0, 0, 0⟩

def shortCut : Cut leadingLog := ⟨1, 2, by decide, by decide, by decide⟩

def longCut : Cut leadingLog := ⟨2, 4, by decide, by decide, by decide⟩

theorem leadingLog_contiguous : leadingLog.Contiguous :=
  ContiguousFrom.cons_iff.mpr ⟨rfl, ContiguousFrom.cons_iff.mpr ⟨rfl,
    ContiguousFrom.cons_iff.mpr ⟨rfl, ContiguousFrom.nil⟩⟩⟩

theorem staleLog_uncompacted : staleLog.Uncompacted :=
  ⟨rfl, ContiguousFrom.cons_iff.mpr ⟨rfl, ContiguousFrom.cons_iff.mpr ⟨rfl,
    ContiguousFrom.cons_iff.mpr ⟨rfl, ContiguousFrom.nil⟩⟩⟩⟩

theorem staleLog_termsMatch : TermsMatch staleLog leadingLog := by
  intro i hi hi' _ hterm j hj hji
  have hlast : staleLog.lastIndex = 3 := rfl
  have hsnap : leadingLog.snapshotLastIndex = 1 := rfl
  have hcases : i = 2 ∨ i = 3 := by omega
  rcases hcases with rfl | rfl
  · rw [show j = 2 by omega]
    rfl
  · exact absurd hterm (by decide)

theorem short_request_after_long :
    SameTerms (longCut.after (shortCut.after staleLog)) (shortCut.after (longCut.after staleLog)) ∧
      shortCut.after (Cut.afterAll [longCut] (shortCut.after staleLog)) =
        Cut.afterAll [longCut] (shortCut.after staleLog) ∧
      ∀ i ≤ 4, (Cut.afterAll [shortCut] (longCut.after staleLog)).getEntry i =
        (longCut.after staleLog).getEntry i := by
  have h := deliveries_commute (by decide) leadingLog_contiguous staleLog_uncompacted
    staleLog_termsMatch
  exact ⟨h.1 shortCut longCut (by decide) (by decide) (by decide) (by decide),
    (h.2 shortCut [longCut] (by decide)).2.1, (h.2 longCut [shortCut] (by decide)).2.2⟩

end RaftLog

end MeshWeaver

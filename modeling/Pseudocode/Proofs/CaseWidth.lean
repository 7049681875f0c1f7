import Mathlib.Algebra.Order.BigOperators.Group.List
import Mathlib.Algebra.Order.Ring.Nat
import Pseudocode.Text.Case

/-! How far changes of case can lengthen a text. A character counts as three if one change of case, or one
after another, can make several characters of it, and as one otherwise. No change of case makes a text
wider, so a text is never longer than three times what it once was, however often its case is changed. -/
namespace Pseudocode.Text

/-- Ranges of codes with all characters that several characters can come of. The small sharp s is the lower
case of a capital one, and two letters are its upper case. -/
def swelling : List (Nat × Nat) := [
  (0xDF, 0xDF), (0x130, 0x130), (0x149, 0x149), (0x1F0, 0x1F0), (0x390, 0x390), (0x3B0, 0x3B0), (0x587, 0x587),
  (0x1E96, 0x1E9A), (0x1E9E, 0x1E9E), (0x1F50, 0x1F5F), (0x1F80, 0x1FAF), (0x1FB2, 0x1FB4), (0x1FB6, 0x1FB7),
  (0x1FBC, 0x1FBC), (0x1FC2, 0x1FC4), (0x1FC6, 0x1FC7), (0x1FCC, 0x1FCC), (0x1FD2, 0x1FD3), (0x1FD6, 0x1FD7),
  (0x1FE2, 0x1FE4), (0x1FE6, 0x1FE7), (0x1FF2, 0x1FF4), (0x1FF6, 0x1FF7), (0x1FFC, 0x1FFC), (0xFB00, 0xFB06),
  (0xFB13, 0xFB17)
]

/-- The code stands in one of the ranges. -/
def Swells (code : Nat) : Prop := ∃ range ∈ swelling, range.1 ≤ code ∧ code ≤ range.2

theorem swelling_high : ∀ range ∈ swelling, 0x80 ≤ range.1 := by decide

instance (code : Nat) : Decidable (Swells code) := inferInstanceAs (Decidable (∃ range ∈ swelling, _))

def charWidth (c : Char) : Nat := if Swells c.toNat then 3 else 1

/-- The most characters that can come of the text. -/
def width (text : List Char) : Nat := (text.map charWidth).sum

theorem charWidth_pos (c : Char) : 1 ≤ charWidth c := by
  unfold charWidth
  split <;> decide

theorem charWidth_le (c : Char) : charWidth c ≤ 3 := by
  unfold charWidth
  split <;> decide

theorem charWidth_plain {c : Char} (plain : ¬Swells c.toNat) : charWidth c = 1 := if_neg plain

theorem width_singleton (c : Char) : width [c] = charWidth c := List.sum_singleton

theorem width_append (left right : List Char) : width (left ++ right) = width left + width right := by
  rw [width, List.map_append, List.sum_append]
  rfl

theorem width_cons (c : Char) (text : List Char) : width (c :: text) = charWidth c + width text := by
  rw [width, List.map_cons, List.sum_cons]
  rfl

theorem width_bounds (text : List Char) : text.length ≤ width text ∧ width text ≤ 3 * text.length := by
  induction text with
  | nil => exact ⟨Nat.le_refl _, Nat.le_refl _⟩
  | cons c rest ih =>
    have least := charWidth_pos c
    have most := charWidth_le c
    rw [width_cons, List.length_cons]
    omega

theorem width_plain {text : List Char} (plain : ∀ c ∈ text, ¬Swells c.toNat) : width text = text.length := by
  induction text with
  | nil => rfl
  | cons c rest ih =>
    rw [width_cons, charWidth_plain (plain c (.head _)), ih fun d member => plain d (.tail _ member),
      List.length_cons, Nat.add_comm]

theorem width_sublist {text whole : List Char} (sublist : text.Sublist whole) : width text ≤ width whole :=
  (sublist.map charWidth).sum_le_sum fun _ _ => Nat.zero_le _

/-- Tables of case where a character that swells makes at most three characters, which do not swell, and
where any other character makes one that does not swell: what a run of codes is moved to stands outside of
the ranges, unless the run stands in one of them. -/
structure Settles (expansions : List (Nat × List Nat)) (runs : List CaseRun) : Prop where
  expanded : ∀ entry ∈ expansions, Swells entry.1 ∧ entry.2.length ≤ 3 ∧ ∀ code ∈ entry.2, ¬Swells code
  moved : ∀ run ∈ runs, (∀ range ∈ swelling, run.last + run.shift < range.1 ∨ range.2 < run.first + run.shift) ∨
    ∃ range ∈ swelling, range.1 ≤ run.first ∧ run.last ≤ range.2

/-- Whether the codes of a run leave the ranges or never were outside of them, told by natural numbers. -/
def CaseRun.settles (run : CaseRun) : Bool :=
  (swelling.all fun range =>
    (run.last + run.shift).toNat.blt range.1 || range.2.blt (run.first + run.shift).toNat) ||
  swelling.any fun range => range.1.ble run.first && run.last.ble range.2

theorem CaseRun.moved_of_settles {run : CaseRun} (settles : run.settles = true) :
    (∀ range ∈ swelling, run.last + run.shift < range.1 ∨ range.2 < run.first + run.shift) ∨
    ∃ range ∈ swelling, range.1 ≤ run.first ∧ run.last ≤ range.2 := by
  obtain outside | inside := (Bool.or_eq_true _ _).mp settles
  · left
    intro range listed
    have high := swelling_high range listed
    have apart := List.all_eq_true.mp outside range listed
    rw [Bool.or_eq_true, Nat.blt_eq, Nat.blt_eq] at apart
    omega
  · right
    obtain ⟨range, listed, within⟩ := List.any_eq_true.mp inside
    rw [Bool.and_eq_true, Nat.ble_eq, Nat.ble_eq] at within
    exact ⟨range, listed, within⟩

theorem upper_settles : Settles upperExpansions upperRuns where
  expanded := by decide +kernel
  moved run listed := by
    have settles : upperRuns.all CaseRun.settles = true := by decide +kernel
    exact CaseRun.moved_of_settles (List.all_eq_true.mp settles run listed)

theorem lower_settles : Settles lowerExpansions lowerRuns where
  expanded := by decide +kernel
  moved run listed := by
    have settles : lowerRuns.all CaseRun.settles = true := by decide +kernel
    exact CaseRun.moved_of_settles (List.all_eq_true.mp settles run listed)

/-- A code that is no character stands for the first one, which does not swell. -/
theorem ofNat_plain {code : Nat} (plain : ¬Swells code) : ¬Swells (Char.ofNat code).toNat := by
  by_cases valid : code.isValidChar
  · rw [Char.ofNat, dif_pos valid]
    exact plain
  · rw [Char.ofNat, dif_neg valid]
    decide +kernel

theorem changeCase_width {expansions : List (Nat × List Nat)} {runs : List CaseRun}
    (settles : Settles expansions runs) (c : Char) : width (changeCase expansions runs c) ≤ charWidth c := by
  unfold changeCase
  split
  next codes found =>
    obtain ⟨before, after, rfl, -⟩ := List.lookup_eq_some_iff.mp found
    obtain ⟨swells, few, plain⟩ := settles.expanded (c.toNat, codes) (List.mem_append_cons_self)
    have each : ∀ d ∈ codes.map Char.ofNat, ¬Swells d.toNat := by
      intro d member
      obtain ⟨code, listed, rfl⟩ := List.mem_map.mp member
      exact ofNat_plain (plain code listed)
    rw [width_plain each, List.length_map, charWidth, if_pos swells]
    exact few
  next =>
    split
    next run found =>
      rw [width_singleton]
      by_cases swells : Swells c.toNat
      · rw [charWidth, charWidth, if_pos swells]
        split <;> decide
      · have plain : ¬Swells ((c.toNat : Int) + run.shift).toNat := by
          have covers := List.find?_some found
          simp only [CaseRun.covers, Bool.and_eq_true, decide_eq_true_eq] at covers
          rintro ⟨range, listed, low, high⟩
          have high := swelling_high range listed
          rcases settles.moved run (List.mem_of_find?_eq_some found) with outside | ⟨inside, known, first, last⟩
          · have apart := outside range listed
            omega
          · exact swells ⟨inside, known, by omega, by omega⟩
        rw [charWidth_plain (ofNat_plain plain), charWidth_plain swells]
    next => exact Nat.le_of_eq (width_singleton c)

theorem ascii_plain {c : Char} (ascii : c.toNat < 0x80) : ¬Swells c.toNat := by
  rintro ⟨range, listed, low, -⟩
  have high := swelling_high range listed
  omega

theorem ascii_cases : ∀ code < 0x80,
    (Char.ofNat code).toUpper.toNat < 0x80 ∧ (Char.ofNat code).toLower.toNat < 0x80 := by decide +kernel

theorem upperChar_width (c : Char) : width (upperChar c) ≤ charWidth c := by
  unfold upperChar
  split
  next ascii =>
    have stays := (ascii_cases c.toNat ascii).1
    rw [Char.ofNat_toNat] at stays
    rw [width_singleton, charWidth_plain (ascii_plain stays)]
    exact charWidth_pos c
  next => exact changeCase_width upper_settles c

theorem lowerChar_width (c : Char) : width (lowerChar c) ≤ charWidth c := by
  unfold lowerChar
  split
  next ascii =>
    have stays := (ascii_cases c.toNat ascii).2
    rw [Char.ofNat_toNat] at stays
    rw [width_singleton, charWidth_plain (ascii_plain stays)]
    exact charWidth_pos c
  next => exact changeCase_width lower_settles c

theorem upper_width (text : String) : width (upper text).toList ≤ width text.toList := by
  unfold upper
  rw [String.toList_ofList]
  induction text.toList with
  | nil => exact Nat.le_refl _
  | cons c rest ih =>
    rw [List.flatMap_cons, width_append, width_cons]
    exact Nat.add_le_add (upperChar_width c) ih

theorem lowerAfter_width (before text : List Char) : width (lowerAfter before text) ≤ width text := by
  induction text generalizing before with
  | nil => exact Nat.le_refl _
  | cons c rest ih =>
    rw [lowerAfter, width_append, width_cons]
    refine Nat.add_le_add ?_ (ih _)
    split
    · split <;> exact charWidth_pos c
    · exact lowerChar_width c

theorem lower_width (text : String) : width (lower text).toList ≤ width text.toList := by
  unfold lower
  rw [String.toList_ofList]
  exact lowerAfter_width [] text.toList

end Pseudocode.Text

import Pseudocode.Proofs.Composition

/-! Reading goes on to the end of the text. An item that cannot be read is skipped, at least one token
of it, and no word closes the outermost block, so whatever is wrong with a text all of its tokens are
taken. -/
namespace Pseudocode

namespace Parse

open Embedding (Shrinks)

variable {s : Reader} {α : Type} {production : Parse α} {instead : α}

/-- An item that could not be read leaves fewer tokens than there were in front of it. -/
theorem itemMissing_shrinks (fault : SyntaxFault) (before : Nat) (left : s.rest.length ≤ before) :
    Ends (itemMissing before instead fault) s (fun _ t => t.rest.length ≤ before - 1)
      (fun _ _ => True) := by
  have resumes (u : Reader) (fewer : u.rest.length ≤ before - 1) :
      Ends (synchronize >>= fun _ => pure instead) u (fun _ t => t.rest.length ≤ before - 1)
        (fun _ _ => True) := by
    rw [ends_bind]
    refine (Forward.ends u).mono (fun _ v onward => ?_) fun _ _ _ => trivial
    exact Nat.le_trans onward.rest.length_le fewer
  unfold itemMissing
  rw [ends_bind]
  refine (Forward.ends s).mono (fun _ u onward => ?_) fun _ _ _ => trivial
  have length : u.rest.length ≤ before := Nat.le_trans onward.rest.length_le left
  show Ends (if u.rest.length = before then _ else _ : Parse α) u _ _
  split
  · rw [ends_bind]
    refine (Embedding.advance_shrinks.discard u).mono (fun _ v fewer => resumes v ?_)
      fun _ _ _ => trivial
    omega
  · exact resumes u (by omega)

theorem orSkip_shrinks [Forward production] (shrinks : Shrinks production) (instead : α) :
    Shrinks (orSkip production instead) := by
  intro s
  rw [orSkip_eq]
  show Ends (tryCatch production (itemMissing s.rest.length instead)) s _ _
  cases early : production s with
  | ok a t =>
    unfold Ends
    rw [tryCatch_of_ok early]
    exact (shrinks s).of_ok early
  | error fault t =>
    rw [ends_congr (tryCatch_of_error early)]
    exact itemMissing_shrinks fault _ (Forward.of_error early).1.rest.length_le

/-- Where no word closes the block, all tokens are taken. -/
theorem statements_exhaust {one : Parse (List Stmt)} [Forward one] (shrinks : Shrinks one) (fuel : Nat)
    (enough : s.rest.length ≤ fuel) :
    Ends (statements one [] fuel) s (fun _ t => t.rest = []) (fun _ _ => False) := by
  induction fuel generalizing s with
  | zero => exact List.length_eq_zero_iff.mp (Nat.le_zero.mp enough)
  | succ fuel ih =>
    unfold statements
    show Ends (if s.rest.isEmpty then _ else _ : Parse (List Stmt)) s _ _
    split
    next ended => exact List.isEmpty_iff.mp ended
    next more =>
      have positive : 0 < s.rest.length := List.length_pos_iff.mpr (by simpa using more)
      split
      · -- Where nothing is open, a word that closes a block is reported and passed over.
        rw [if_neg (by simp), ends_bind]
        refine ((Forward.ends s).and (record_total _ s)).mono (fun _ u known => ?_)
          fun _ _ never => never.2
        have fewer : u.advanced.rest.length ≤ fuel := by
          have kept := known.1.rest.length_le
          have taken := List.length_tail (l := u.rest)
          show u.rest.tail.length ≤ fuel
          omega
        exact (ends_congr (skip_bind _ u)).mpr (ih fewer)
      · rw [ends_bind]
        refine ((orSkip_shrinks shrinks [] s).and (orSkip_total one [] s)).mono (fun first u known => ?_)
          fun _ _ never => never.2
        have fewer : u.rest.length ≤ fuel := by omega
        rw [ends_bind]
        exact (ih fewer).mono (fun _ _ done => done) fun _ _ never => never

/-- Whatever the text, reading ends behind its last token. -/
theorem program_exhausts (s : Reader) :
    Ends program s (fun _ t => t.rest = []) (fun _ _ => False) :=
  statements_exhaust (Embedding.statement_shrinks _ _) _ (Nat.le_refl _)

end Parse

end Pseudocode

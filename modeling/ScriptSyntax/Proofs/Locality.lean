import ScriptSyntax.Proofs.Composition
import ScriptSyntax.Proofs.Parser.Local
/-! # No parser of the grammar looks further than at the next token -/

namespace ScriptSyntax

open ScriptSyntax.Parser

theorem Expr.local_of_room (room : Nat) : (parser room).Local :=
  has_of_room compositional_local room

namespace Stmt

theorem local_semicolon : semicolon.Local := by
  refine local_onNext (fun kind p hp t => ?_) (local_options.bind fun options => ?_)
  · split at hp
    · cases hp
      exact local_pure ()
    · contradiction
  · split
    · exact local_fail _
    · exact (local_reportNext _).bind fun _ => local_finishStatement

theorem compositional_local : Compositional (fun _ => True) fun _ p => p.Local where
  toCompositional := Parser.compositional_local
  semicolon := local_semicolon
  resume := Local.resume

theorem local_of_room (room : Nat) : (parser room).Local := has_of_room compositional_local room

end Stmt

end ScriptSyntax

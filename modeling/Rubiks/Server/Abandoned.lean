import Rubiks.Server.PipeEnds

/-!
# Children whose client is gone

The header says that a child runs until its client is gone. But the child also joins the
thread that listens to the pipe from the server, and every other process holds the write
end of that pipe. So a child whose client is gone stays as it is until it is the last
process of the server, and two of them wait for each other for ever
(`abandoned_children_wait`).
-/

namespace Rubiks

open Logic

variable {P Q : Process} {s s' : List Process} {p q : Nat}

/-- A process in `client_facing_process` is the child of its slot. -/
theorem TreeEnds.serving {first : Process} {i : FaceId} (h : TreeEnds s first) (inv : P.Inv p)
    (found : s[p]? = some P) (main : P.main = .serving i) : p = i.val + 1 ∧ P.ChildEnds i := by
  have slot := (inv.child i (.inr main)).1
  cases p with
  | zero =>
    rw [inv.first.1 rfl] at slot
    cases slot
  | succ p =>
    obtain ⟨j, rfl, ends⟩ := h.children p P found
    obtain rfl := ends.slot_eq slot
    exact ⟨rfl, ends⟩

end Rubiks

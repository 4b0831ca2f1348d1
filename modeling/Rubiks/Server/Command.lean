import Rubiks.Server.Encoding
import Rubiks.Logic.Interleave

/-!
# Commands (`decode_user_input`, `interpret_command`)

The server subtracts `'0'` from the first two bytes of a line and passes them on
as a face number and a direction code. `Command` is a line whose two bytes are
the digits of a face and a code; on these the server is total. On other lines it
depends on the first byte alone whether the face index stays in range
(`handlesLine_iff`).
-/

namespace Rubiks

open Logic

/-- `decode_user_input`: the new value of `*global_cube_state`. -/
def decodeUserInput (command : List Char8) (globalCubeState : Cube) (draws : Draws) : Option Cube := do
  let c0 ← command[0]?
  let c1 ← command[1]?
  let faceNum := c0.toInt - 48
  let direction := c1.toInt - 48
  if direction = 2 then
    if isSolved globalCubeState ≠ 0 then shuffle globalCubeState minDepth maxDepth draws
    else some (resetFaces globalCubeState)
  else rotate globalCubeState faceNum direction

/-- The fields of `echo_server` a command touches. -/
structure EchoServer where
  globalCubeState : Cube
  broadcastMessageReady : Nat

/-- `interpret_command` run undisturbed: decode under the lock, then post. -/
def interpretCommand (server : EchoServer) (line : List Char8) (draws : Draws) : Option EchoServer := do
  let cube ← decodeUserInput line server.globalCubeState draws
  some { server with
    globalCubeState := cube
    broadcastMessageReady := server.broadcastMessageReady + 1 }

/-- The digit `n` of a face or a code reads back as `n`. -/
theorem digit_toInt : ∀ n : Fin 6, (digit n).toInt - 48 = (n : Nat) := by decide

/-- The direction a byte encodes is the shuffle code exactly for the byte `'2'`. -/
theorem toInt_eq_two_iff {b : Char8} : b.toInt - 48 = 2 ↔ b = digit 2 := by
  constructor
  · intro h
    apply BitVec.eq_of_toInt_eq
    rw [show (digit 2).toInt = 50 from rfl]
    omega
  · rintro rfl; rfl

/-! ## Well-formed commands -/

/-- A line with first byte `'0'..'5'` and second byte `'0'..'2'`. -/
structure Command where
  face : FaceId
  code : Fin 3
  /-- What follows the two bytes. -/
  rest : List Char8

def Command.line (m : Command) : List Char8 := digit m.face :: digit m.code :: m.rest

theorem decodeUserInput_line (m : Command) (c : Cube) (draws : Draws) :
    decodeUserInput m.line c draws =
      if m.code = 2 then
        if isSolved c ≠ 0 then shuffle c minDepth maxDepth draws else some (resetFaces c)
      else rotate c (m.face : Nat) (m.code : Nat) := by
  have code : ∀ n : Fin 3, (digit n).toInt - 48 = (n : Nat) ∧ (((n : Nat) : Int) = 2 ↔ n = 2) := by decide
  obtain ⟨direction, shuffles⟩ := code m.code
  simp only [decodeUserInput, Command.line, List.getElem?_cons_zero, List.getElem?_cons_succ,
    Option.bind_eq_bind, Option.bind_some, digit_toInt, direction, shuffles]

/-- A command always succeeds on a reachable cube, and its result is reachable. -/
theorem Reachable.command {c : Cube} (h : Reachable c) (m : Command) (draws : Draws) :
    ∃ d, decodeUserInput m.line c draws = some d ∧ Reachable d := by
  obtain ⟨ops, run⟩ := h
  have extend : ∀ op : Op, op.run c = decodeUserInput m.line c draws →
      ∃ d, decodeUserInput m.line c draws = some d ∧ Reachable d := by
    intro op same
    obtain ⟨moves, defined⟩ := runOps_eq_runMoves (ops ++ [op])
    rw [runOps_concat, run, Option.bind_some, same, runMoves_makeCube_eq] at defined
    exact ⟨_, defined, ops ++ [op], by rw [runOps_concat, run, Option.bind_some, same, defined]⟩
  by_cases code : m.code = 2
  · by_cases solved : isSolved c ≠ 0
    · exact extend (.shuffle defaultRange draws)
        (by rw [decodeUserInput_line, if_pos code, if_pos solved]; rfl)
    · exact extend .resetFaces (by rw [decodeUserInput_line, if_pos code, if_neg solved]; rfl)
  · exact extend (.rotate m.face (m.code : Nat)) (by rw [decodeUserInput_line, if_neg code]; rfl)

/-! ## Arbitrary lines -/

def firstByte (line : List Char8) : Char8 := line.headD nul

/-- The second byte of a line's buffer: the NUL when the line has one byte. -/
def secondByte (line : List Char8) : Char8 := line.tail.headD nul

/-- The byte is `'0'..'5'`. -/
def FaceByte (b : Char8) : Prop := 48 ≤ b.toInt ∧ b.toInt ≤ 53

instance (b : Char8) : Decidable (FaceByte b) := inferInstanceAs (Decidable (_ ∧ _))

/-- What is expected of the server on any line: `rotate` indexes no face out of
range, and a line that is no command leaves the cube as it was. -/
def HandlesLine (server : EchoServer) (line : List Char8) (draws : Draws) : Prop :=
  (∃ after, interpretCommand server (lineBuffer line) draws = some after) ∧
  (secondByte line ≠ digit 2 → ¬ FaceByte (firstByte line) →
    ∃ after, interpretCommand server (lineBuffer line) draws = some after ∧
      after.globalCubeState = server.globalCubeState)

theorem decodeUserInput_lineBuffer {line : List Char8} (nonempty : line ≠ []) (c : Cube) (draws : Draws) :
    decodeUserInput (lineBuffer line) c draws =
      if secondByte line = digit 2 then
        if isSolved c ≠ 0 then shuffle c minDepth maxDepth draws else some (resetFaces c)
      else rotate c ((firstByte line).toInt - 48) ((secondByte line).toInt - 48) := by
  obtain ⟨b, rest, rfl⟩ := List.exists_cons_of_ne_nil nonempty
  have second : (lineBuffer (b :: rest))[1]? = some (secondByte (b :: rest)) := by
    cases rest <;> rfl
  have first : (lineBuffer (b :: rest))[0]? = some (firstByte (b :: rest)) := rfl
  simp only [decodeUserInput, first, second, Option.bind_eq_bind, Option.bind_some, toInt_eq_two_iff]

/-- A line is decoded without an index out of range exactly when it is a solve or
shuffle command or its first byte is a face digit. -/
theorem decodeUserInput_defined_iff {c : Cube} (h : Reachable c) {line : List Char8} (nonempty : line ≠ [])
    (draws : Draws) : (∃ d, decodeUserInput (lineBuffer line) c draws = some d) ↔
      secondByte line = digit 2 ∨ FaceByte (firstByte line) := by
  rw [decodeUserInput_lineBuffer nonempty]
  by_cases code : secondByte line = digit 2
  · have total : ∃ d, (if isSolved c ≠ 0 then shuffle c minDepth maxDepth draws
        else some (resetFaces c)) = some d := by
      split
      · exact ⟨_, (shuffle_eq c defaultRange draws).trans (runMoves_eq h.standard _)⟩
      · exact ⟨_, rfl⟩
    rw [if_pos code]
    exact iff_of_true total (.inl code)
  · rw [if_neg code, ← Option.ne_none_iff_exists', ne_eq, rotate_eq_none_iff h.standard, not_not,
      or_iff_right code, FaceByte]
    omega

/-- A line that is decoded leads from a reachable cube to a reachable one, whatever
its bytes. -/
theorem Reachable.line {c d : Cube} (h : Reachable c) {line : List Char8} (nonempty : line ≠ []) {draws : Draws}
    (decoded : decodeUserInput (lineBuffer line) c draws = some d) : Reachable d := by
  have reached : ∀ op : Op, op.run c = some d → Reachable d := by
    intro op run
    obtain ⟨d', run', reach⟩ := h.op op
    rwa [Option.some.inj (run.symm.trans run')]
  rw [decodeUserInput_lineBuffer nonempty] at decoded
  split at decoded
  · split at decoded
    · exact reached (.shuffle defaultRange draws) decoded
    · exact reached .resetFaces decoded
  · obtain ⟨f, face, -⟩ := Option.bind_eq_some_iff.1 decoded
    rw [index_eq_some_iff.1 face] at decoded
    exact reached (.rotate f _) decoded

/-- **When the server handles a line.** On a reachable cube: exactly when the
second byte is `'2'` or the first is `'0'..'5'`. -/
theorem handlesLine_iff {server : EchoServer} (h : Reachable server.globalCubeState) {line : List Char8}
    (nonempty : line ≠ []) (draws : Draws) :
    HandlesLine server line draws ↔ secondByte line = digit 2 ∨ FaceByte (firstByte line) := by
  have interpreted : (∃ after, interpretCommand server (lineBuffer line) draws = some after) ↔
      ∃ d, decodeUserInput (lineBuffer line) server.globalCubeState draws = some d := by
    simp only [interpretCommand]
    cases decodeUserInput (lineBuffer line) server.globalCubeState draws <;> simp
  rw [HandlesLine, interpreted, decodeUserInput_defined_iff h nonempty]
  constructor
  · exact fun handled => handled.1
  · rintro (code | face)
    · exact ⟨.inl code, fun other => absurd code other⟩
    · exact ⟨.inr face, fun _ other => absurd face other⟩

/-- The one-byte line `3`, whose second byte is the NUL, turns a face. -/
theorem handlesLine_single_byte : HandlesLine ⟨makeCube, 0⟩ [digit 3] default :=
  (handlesLine_iff reachable_makeCube (by decide) default).2 (.inr (by decide))

/-- The line `9` indexes `faces[9]`, so not every line is handled. -/
theorem handlesLine_fails : ¬ ∀ (server : EchoServer) (line : List Char8) (draws : Draws),
    Reachable server.globalCubeState → line ≠ [] → HandlesLine server line draws := by
  intro handled
  obtain ⟨⟨after, run⟩, -⟩ := handled ⟨makeCube, 0⟩ [digit 9, newline] default reachable_makeCube (by decide)
  have undefined : decodeUserInput (lineBuffer [digit 9, newline]) makeCube default = none := by
    rw [decodeUserInput_lineBuffer (by decide), if_neg (by decide), rotate_eq_none_iff rfl]
    decide
  simp [interpretCommand, undefined] at run

/-! ## Two clients on opposite faces -/

/-- Successive commands, each with the draws its call of `shuffle` would meet. -/
def decodeAll (c : Cube) (commands : List (List Char8 × Draws)) : Option Cube :=
  commands.foldlM (fun c m => decodeUserInput m.1 c m.2) c

/-- A command on face `f` that is not the solve or shuffle command. -/
def RotationOn (f : FaceId) (line : List Char8) : Prop :=
  ∃ b rest, line = digit f :: b :: rest ∧ b ≠ digit 2

/-- The turn a rotation command makes. -/
def rotationPerm (line : List Char8) : Equiv.Perm Square :=
  turn (Fin.ofNat 6 ((firstByte line).toInt - 48).toNat) ((secondByte line).toInt - 48)

theorem RotationOn.perm_eq {f : FaceId} {line : List Char8} (h : RotationOn f line) :
    rotationPerm line = turn f ((secondByte line).toInt - 48) := by
  obtain ⟨b, rest, rfl, -⟩ := h
  have face : Fin.ofNat 6 ((digit f).toInt - 48).toNat = f := by
    rw [digit_toInt, Int.toNat_natCast, Fin.ofNat_val_eq_self]
  show turn (Fin.ofNat 6 ((digit f).toInt - 48).toNat) _ = _
  rw [face]

theorem RotationOn.decode_eq {f : FaceId} {line : List Char8} (h : RotationOn f line) {c : Cube}
    (standard : c.Standard) (draws : Draws) :
    decodeUserInput line c draws = some (c.paint (c.coloring ∘ rotationPerm line)) := by
  rw [h.perm_eq]
  obtain ⟨b, rest, rfl, other⟩ := h
  have rotates : ¬ b.toInt - 48 = 2 := fun code => other (toInt_eq_two_iff.1 code)
  simp only [decodeUserInput, List.getElem?_cons_zero, List.getElem?_cons_succ, Option.bind_eq_bind,
    Option.bind_some, rotates, if_false, digit_toInt]
  exact rotate_eq standard f _

/-- A run of rotation commands is the product of their turns. -/
theorem decodeAll_rotations {c : Cube} (standard : c.Standard) {commands : List (List Char8 × Draws)}
    (rotations : ∀ m ∈ commands, ∃ f, RotationOn f m.1) :
    decodeAll c commands =
      some (c.paint (c.coloring ∘ (commands.map fun m => rotationPerm m.1).prod)) := by
  induction commands generalizing c with
  | nil => rfl
  | cons m commands ih =>
    obtain ⟨f, rotation⟩ := rotations m (by simp)
    have rest := ih (standard.paint (c.coloring ∘ rotationPerm m.1)) fun m' mem => rotations m' (by simp [mem])
    show (decodeUserInput m.1 c m.2).bind (fun d => decodeAll d commands) = _
    rw [rotation.decode_eq standard, Option.bind_some, rest, Cube.paint_paint, Cube.coloring_paint,
      List.map_cons, List.prod_cons, Equiv.Perm.coe_mul, Function.comp_assoc]

/-- **Opposite faces are independent.** Two clients' rotation commands on opposite
faces lead to the same cube in every interleaving. -/
theorem opposite_rotations_order {c : Cube} (standard : c.Standard) (f : FaceId)
    {xs ys zs zs' : List (List Char8 × Draws)} (left : ∀ m ∈ xs, RotationOn f m.1)
    (right : ∀ m ∈ ys, RotationOn f.rev m.1) (merge : Interleave xs ys zs) (merge' : Interleave xs ys zs') :
    ∃ d, decodeAll c zs = some d ∧ decodeAll c zs' = some d := by
  have commute : ∀ g ∈ xs.map (fun m => rotationPerm m.1), ∀ h ∈ ys.map (fun m => rotationPerm m.1),
      Commute g h := by
    intro g memg h memh
    obtain ⟨m, memm, rfl⟩ := List.mem_map.1 memg
    obtain ⟨n, memn, rfl⟩ := List.mem_map.1 memh
    rw [(left m memm).perm_eq, (right n memn).perm_eq]
    exact turn_commute_opposite f _ _
  have each : ∀ {ws}, Interleave xs ys ws → ∀ m ∈ ws, ∃ g, RotationOn g m.1 := by
    intro ws merge m mem
    rcases merge.mem_iff.1 mem with mem | mem
    · exact ⟨f, left m mem⟩
    · exact ⟨f.rev, right m mem⟩
  refine ⟨_, decodeAll_rotations standard (each merge), ?_⟩
  rw [decodeAll_rotations standard (each merge'), (merge.map _).prod_eq commute,
    (merge'.map _).prod_eq commute]

/-- A client on the front face and one on the back face, in both orders. -/
theorem opposite_rotations_front_back :
    ∃ d, decodeAll makeCube [([digit 0, digit 1], default), ([digit 5, digit 0], default)] = some d ∧
      decodeAll makeCube [([digit 5, digit 0], default), ([digit 0, digit 1], default)] = some d :=
  opposite_rotations_order rfl 0 (by simpa using ⟨_, _, rfl, by decide⟩) (by simpa using ⟨_, _, rfl, by decide⟩)
    (.left _ (.right _ .nil)) (.right _ (.left _ .nil))

end Rubiks

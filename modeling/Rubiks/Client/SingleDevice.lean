import Rubiks.Client.Input

/-!
# The networked program refines the single-device program

`rubiks_view` turns its own cube as keys arrive; a client sends each key as a
text message and the server decodes it. `Agree` relates the two after any number
of keys: same face, and the messages sent so far, decoded in order, give the
local cube. Each key keeps it (`agree_key`), so both programs end alike.
-/

namespace Rubiks

open Logic

/-- The state of `rubiks_view`'s loop; `shuffles` counts its calls of `shuffle`. -/
structure View where
  rubiksCube : Cube
  currentFace : Int
  shuffles : Nat

/-- One key of `rubiks_view`'s loop. The `i`-th call of `shuffle` meets `draws i`. -/
def viewKey (draws : Nat → Draws) (s : View) (input : Int) : Option View :=
  if input = keyA then do
    let cube ← rotate s.rubiksCube s.currentFace 1
    some { s with rubiksCube := cube }
  else if input = keyD then do
    let cube ← rotate s.rubiksCube s.currentFace 0
    some { s with rubiksCube := cube }
  else if FaceKey input then some { s with currentFace := input - 48 }
  else if input = keySpace then
    if isSolved s.rubiksCube ≠ 0 then do
      let cube ← shuffle s.rubiksCube minDepth maxDepth (draws s.shuffles)
      some { s with rubiksCube := cube, shuffles := s.shuffles + 1 }
    else some { s with rubiksCube := makeCube }
  else some s

/-- `rubiks_view`'s loop, up to the first `q` or `Q`. -/
def viewLoop (draws : Nat → Draws) (s : View) : List Int → Option View
  | [] => some s
  | input :: keys => do
    let s ← viewKey draws s input
    if input = keyQ ∨ input = keyUpperQ then some s else viewLoop draws s keys

/-- The server's cube and the number of its calls of `shuffle`. -/
structure ServerCube where
  cube : Cube
  shuffles : Nat

/-- One line at the server: `decode_user_input` on the buffer `getline` returned. -/
def serverLine (draws : Nat → Draws) (s : ServerCube) (line : List Char8) : Option ServerCube := do
  let cube ← decodeUserInput (lineBuffer line) s.cube (draws s.shuffles)
  let shuffled := secondByte line = digit 2 ∧ isSolved s.cube ≠ 0
  some { cube := cube, shuffles := if shuffled then s.shuffles + 1 else s.shuffles }

/-- The server reads a byte stream line by line. -/
def serverStream (draws : Nat → Draws) (s : ServerCube) (stream : List Char8) : Option ServerCube :=
  (splitAfter newline stream).foldlM (serverLine draws) s

/-- The message of a face and a code, as the server decodes it. -/
theorem serverLine_message (draws : Nat → Draws) (s : ServerCube) (face : FaceId) (code : Fin 3) :
    serverLine draws s (messageLine face code) =
      if code = 2 then
        if isSolved s.cube ≠ 0 then
          (shuffle s.cube minDepth maxDepth (draws s.shuffles)).map fun cube => ⟨cube, s.shuffles + 1⟩
        else some ⟨makeCube, s.shuffles⟩
      else (rotate s.cube (face : Nat) (code : Nat)).map fun cube => ⟨cube, s.shuffles⟩ := by
  have line : lineBuffer (messageLine face code) = Command.line ⟨face, code, [newline, nul]⟩ := rfl
  have second : secondByte (messageLine face code) = digit 2 ↔ code = 2 := by
    have codes : ∀ n : Fin 3, digit n = digit 2 ↔ n = 2 := by decide
    exact codes code
  rw [serverLine, line, decodeUserInput_line]
  by_cases two : code = 2
  · by_cases solved : isSolved s.cube ≠ 0
    · simp only [second, if_pos two, if_pos solved, if_pos (And.intro two solved)]
      cases shuffle s.cube minDepth maxDepth (draws s.shuffles) <;> rfl
    · simp only [second, if_pos two, if_neg solved, if_neg fun both : code = 2 ∧ _ => solved both.2,
        resetFaces_eq]
      rfl
  · simp only [second, if_neg two, if_neg fun both : code = 2 ∧ _ => two both.1]
    cases rotate s.cube (face : Nat) (code : Nat) <;> rfl

/-- The two programs after the same keys, from the cube `start`. -/
structure Agree (draws : Nat → Draws) (start : Cube) (view : View) (client : CursesThread) : Prop where
  standard : view.rubiksCube.Standard
  face : ∃ f : FaceId, view.currentFace = (f : Nat) ∧ client.cubeFaceId = (f : Nat)
  messages : ∀ l ∈ client.socket, ∃ (face : FaceId) (code : Fin 3), l = messageLine face code
  served : client.socket.foldlM (serverLine draws) ⟨start, 0⟩ = some ⟨view.rubiksCube, view.shuffles⟩

variable {draws : Nat → Draws} {start : Cube} {view : View} {client : CursesThread}

/-- A sent message whose decoding is the local step keeps the agreement. -/
theorem Agree.send (h : Agree draws start view client) {face : FaceId} {code : Fin 3} {cube : Cube} {shuffles : Nat}
    {msg : Fin 4 → Char8} (standard : cube.Standard)
    (decoded : serverLine draws ⟨view.rubiksCube, view.shuffles⟩ (messageLine face code) = some ⟨cube, shuffles⟩) :
    Agree draws start ⟨cube, view.currentFace, shuffles⟩
      { client with msg := msg, socket := client.socket ++ [messageLine face code] } where
  standard := standard
  face := h.face
  messages := by
    intro l mem
    rcases List.mem_append.1 mem with mem | mem
    · exact h.messages l mem
    · exact ⟨face, code, List.mem_singleton.1 mem⟩
  served := by
    rw [List.foldlM_append, h.served]
    simpa using decoded

/-- A command key whose local step matches the server's on its message. -/
theorem Agree.command (h : Agree draws start view client) {input : Int} {code : Fin 3}
    (key : keyCode input = some code) {face : FaceId} (viewFace : view.currentFace = (face : Nat))
    {cube : Cube} {shuffles : Nat} (standard : cube.Standard)
    (decoded : serverLine draws ⟨view.rubiksCube, view.shuffles⟩ (messageLine face code) = some ⟨cube, shuffles⟩) :
    Agree draws start ⟨cube, view.currentFace, shuffles⟩ (cursesKey client input) := by
  obtain ⟨f, viewFace', clientFace⟩ := h.face
  obtain rfl : f = face := Fin.ext (by have := viewFace'.symm.trans viewFace; omega)
  obtain ⟨msg, encoded, text⟩ := encodeUserInput_of_code key f client.msg
  have command : input = keyA ∨ input = keyD ∨ input = keySpace := by
    by_contra none
    simp only [not_or] at none
    rw [keyCode, if_neg none.1, if_neg none.2.1, if_neg none.2.2] at key
    cases key
  have sent : cursesKey client input =
      { client with msg := msg, socket := client.socket ++ [messageLine f code] } := by
    simp only [cursesKey, command, if_true, clientFace, encoded, ne_eq, not_true_eq_false, if_false, text]
  rw [sent]
  exact h.send standard decoded

/-- One key keeps the two programs in agreement. -/
theorem agree_key (h : Agree draws start view client) (input : Int) :
    ∃ after, viewKey draws view input = some after ∧ Agree draws start after (cursesKey client input) := by
  obtain ⟨f, viewFace, clientFace⟩ := h.face
  have turned : ∀ direction : Int, rotate view.rubiksCube (f : Nat) direction =
      some (view.rubiksCube.paint (view.rubiksCube.coloring ∘ turn f direction)) := rotate_eq h.standard f
  by_cases a : input = keyA
  · refine ⟨{ view with rubiksCube := view.rubiksCube.paint (view.rubiksCube.coloring ∘ turn f 1) },
      by simp [viewKey, a, viewFace, turned], ?_⟩
    have key : keyCode input = some 1 := by rw [keyCode, if_pos a]
    apply h.command key viewFace (h.standard.paint _)
    rw [serverLine_message, if_neg (by decide)]
    exact congrArg (Option.map _) (turned 1)
  · by_cases d : input = keyD
    · refine ⟨{ view with rubiksCube := view.rubiksCube.paint (view.rubiksCube.coloring ∘ turn f 0) },
        by rw [viewKey, if_neg a, if_pos d, viewFace, turned]; rfl, ?_⟩
      have key : keyCode input = some 0 := by rw [keyCode, if_neg a, if_pos d]
      apply h.command key viewFace (h.standard.paint _)
      rw [serverLine_message, if_neg (by decide)]
      exact congrArg (Option.map _) (turned 0)
    · by_cases face : FaceKey input
      · refine ⟨{ view with currentFace := input - 48 }, by rw [viewKey, if_neg a, if_neg d, if_pos face], ?_⟩
        have range := face
        unfold FaceKey at range
        have space : input ≠ keySpace := by unfold keySpace; omega
        have kept : cursesKey client input =
            { client with cubeFaceId := input - 48, updateViewSemaphore := client.updateViewSemaphore + 1 } := by
          simp [cursesKey, a, d, space, face]
        rw [kept]
        exact ⟨h.standard, ⟨Fin.ofNat 6 (input - 48).toNat, by simp; omega, by simp; omega⟩, h.messages, h.served⟩
      · by_cases space : input = keySpace
        · have key : keyCode input = some 2 := by rw [keyCode, if_neg a, if_neg d, if_pos space]
          by_cases solved : isSolved view.rubiksCube ≠ 0
          · have shuffled := (shuffle_eq view.rubiksCube defaultRange (draws view.shuffles)).trans
              (runMoves_eq h.standard _)
            have drawn : shuffle view.rubiksCube minDepth maxDepth (draws view.shuffles) = _ := shuffled
            refine ⟨_, by rw [viewKey, if_neg a, if_neg d, if_neg face, if_pos space, if_pos solved, drawn]; rfl, ?_⟩
            apply h.command key viewFace (h.standard.paint _)
            rw [serverLine_message, if_pos rfl, if_pos solved]
            exact congrArg (Option.map _) drawn
          · refine ⟨{ view with rubiksCube := makeCube }, by
              rw [viewKey, if_neg a, if_neg d, if_neg face, if_pos space, if_neg solved], ?_⟩
            apply h.command key viewFace Cube.standard_makeCube
            rw [serverLine_message, if_pos rfl, if_neg solved]
        · refine ⟨view, by rw [viewKey, if_neg a, if_neg d, if_neg face, if_neg space], ?_⟩
          have kept : cursesKey client input = client := by simp [cursesKey, a, d, space, face]
          rw [kept]
          exact h

/-- A whole key history keeps the two programs in agreement. -/
theorem agree_loop (h : Agree draws start view client) (keys : List Int) :
    ∃ after, viewLoop draws view keys = some after ∧ Agree draws start after (cursesLoop client keys) := by
  induction keys generalizing view client with
  | nil => exact ⟨view, rfl, h⟩
  | cons input keys ih =>
    obtain ⟨after, step, agree⟩ := agree_key h input
    by_cases quit : input = keyQ ∨ input = keyUpperQ
    · exact ⟨after, by simp [viewLoop, step, quit], by simpa [cursesLoop, quit] using agree⟩
    · obtain ⟨last, run, agree'⟩ := ih agree
      exact ⟨last, by simpa [viewLoop, step, quit] using run, by simpa [cursesLoop, quit] using agree'⟩

/-- **The networked program refines the single-device program.** From the same
standard cube and face, for every key history: the server that receives the
client's byte stream ends with the local cube, the faces agree, and every
message was two digits and a newline with the face in `0..5`. -/
theorem client_server_refines_view (draws : Nat → Draws) (keys : List Int) {c : Cube} (standard : c.Standard)
    (f : FaceId) (msg : Fin 4 → Char8) (posts : Nat) :
    ∃ view server, viewLoop draws ⟨c, (f : Nat), 0⟩ keys = some view ∧
      serverStream draws ⟨c, 0⟩ (cursesLoop ⟨(f : Nat), msg, [], posts⟩ keys).socket.flatten = some server ∧
      server.cube = view.rubiksCube ∧
      (cursesLoop ⟨(f : Nat), msg, [], posts⟩ keys).cubeFaceId = view.currentFace ∧
      ∀ l ∈ (cursesLoop ⟨(f : Nat), msg, [], posts⟩ keys).socket,
        ∃ (face : Fin 6) (code : Fin 10), l = [digit face, digit code, newline] := by
  have init : Agree draws c ⟨c, (f : Nat), 0⟩ ⟨(f : Nat), msg, [], posts⟩ :=
    ⟨standard, ⟨f, rfl, rfl⟩, by simp, rfl⟩
  obtain ⟨view, run, agree⟩ := agree_loop init keys
  refine ⟨view, ⟨view.rubiksCube, view.shuffles⟩, run, ?_, rfl, ?_, ?_⟩
  · have records : ∀ l ∈ (cursesLoop ⟨(f : Nat), msg, [], posts⟩ keys).socket, Terminated newline l := by
      intro l mem
      obtain ⟨face, code, rfl⟩ := agree.messages l mem
      exact messageLine_terminated face code
    rw [serverStream, splitAfter_flatten records]
    exact agree.served
  · obtain ⟨g, viewFace, clientFace⟩ := agree.face
    rw [viewFace, clientFace]
  · intro l mem
    obtain ⟨face, code, rfl⟩ := agree.messages l mem
    exact ⟨face, ⟨code, by omega⟩, rfl⟩

/-- Turning, changing face, shuffling and quitting on a solved cube. -/
theorem client_server_refines_view_keys :
    ∃ view server, viewLoop (fun _ => default) ⟨makeCube, 0, 0⟩ [keyA, 51, keyD, keySpace, keySpace, keyQ, keyA] =
        some view ∧
      serverStream (fun _ => default) ⟨makeCube, 0⟩
        (cursesLoop ⟨0, fun _ => nul, [], 0⟩ [keyA, 51, keyD, keySpace, keySpace, keyQ, keyA]).socket.flatten =
          some server ∧
      server.cube = view.rubiksCube := by
  obtain ⟨view, server, run, stream, same, -⟩ := client_server_refines_view (fun _ => default)
    [keyA, 51, keyD, keySpace, keySpace, keyQ, keyA] (c := makeCube) rfl 0 (fun _ => nul) 0
  exact ⟨view, server, run, stream, same⟩

end Rubiks

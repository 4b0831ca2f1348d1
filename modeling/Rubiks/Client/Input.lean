import Rubiks.Server.Command

/-!
# The client's key loop (`rubiks_client.c`)

`encode_user_input` writes a four-byte message for a turn, solve or shuffle key
and fails on a face number outside `0..5`. The thread
`listen_to_curses_and_send_message_to_socket` sends each message and keeps the
face number, which starts as whatever `malloc` returned.
-/

namespace Rubiks

open Logic

def keyA : Int := 97
def keyD : Int := 100
def keySpace : Int := 32
def keyQ : Int := 113
def keyUpperQ : Int := 81

/-- The keys `'0'..'5'`. -/
def FaceKey (input : Int) : Prop := 48 ≤ input ∧ input ≤ 53

instance (input : Int) : Decidable (FaceKey input) := inferInstanceAs (Decidable (_ ∧ _))

/-- `encode_user_input`: the return value and the message buffer after the call. -/
def encodeUserInput (input faceNum : Int) (encodedMessage : Fin 4 → Char8) : Int × (Fin 4 → Char8) :=
  match index 6 faceNum with
  | none => (1, encodedMessage)
  | some face =>
    let encodedMessage := Function.update encodedMessage 0 (digit face)
    let encodedMessage := Function.update encodedMessage 2 newline
    let encodedMessage := Function.update encodedMessage 3 nul
    if input = keyA then (0, Function.update encodedMessage 1 (digit 1))
    else if input = keyD then (0, Function.update encodedMessage 1 (digit 0))
    else if input = keySpace then (0, Function.update encodedMessage 1 (digit 2))
    else (1, encodedMessage)

/-- The code `encode_user_input` writes for a key. -/
def keyCode (input : Int) : Option (Fin 3) :=
  if input = keyA then some 1 else if input = keyD then some 0 else if input = keySpace then some 2 else none

/-- The text of a message: two digits and a newline. -/
def messageLine (face : FaceId) (code : Fin 3) : List Char8 := [digit face, digit code, newline]

theorem messageLine_terminated (face : FaceId) (code : Fin 3) : Terminated newline (messageLine face code) := by
  have digits : ∀ (face : FaceId) (code : Fin 3), newline ∉ [digit face, digit code] := by decide
  exact ⟨[digit face, digit code], rfl, digits face code⟩

/-- On a face in range the call fails exactly for the keys without a code. -/
theorem encodeUserInput_face (input : Int) (face : FaceId) (buffer : Fin 4 → Char8) :
    encodeUserInput input (face : Nat) buffer =
      let head := Function.update (Function.update (Function.update buffer 0 (digit face)) 2 newline) 3 nul
      match keyCode input with
      | some code => (0, Function.update head 1 (digit code))
      | none => (1, head) := by
  simp only [encodeUserInput, index_fin, keyCode]
  by_cases a : input = keyA
  · rw [if_pos a, if_pos a]; rfl
  · by_cases d : input = keyD
    · rw [if_neg a, if_neg a, if_pos d, if_pos d]; rfl
    · by_cases space : input = keySpace
      · rw [if_neg a, if_neg a, if_neg d, if_neg d, if_pos space, if_pos space]; rfl
      · rw [if_neg a, if_neg a, if_neg d, if_neg d, if_neg space, if_neg space]

/-- A command key on a face in range is encoded, whatever the buffer held. -/
theorem encodeUserInput_of_code {input : Int} {code : Fin 3} (key : keyCode input = some code)
    (face : FaceId) (buffer : Fin 4 → Char8) :
    ∃ encoded, encodeUserInput input (face : Nat) buffer = (0, encoded) ∧
      fputs (List.ofFn encoded) = messageLine face code := by
  have text : ∀ (face : FaceId) (code : Fin 3),
      fputs [digit face, digit code, newline, nul] = messageLine face code := by decide
  rw [encodeUserInput_face, key]
  exact ⟨_, rfl, text face code⟩

/-- Only a command key on a face in range is encoded. -/
theorem encodeUserInput_success {input faceNum : Int} {buffer encoded : Fin 4 → Char8}
    (h : encodeUserInput input faceNum buffer = (0, encoded)) :
    ∃ (face : FaceId) (code : Fin 3), faceNum = (face : Nat) ∧ keyCode input = some code ∧
      fputs (List.ofFn encoded) = messageLine face code := by
  cases found : index 6 faceNum with
  | none => simp [encodeUserInput, found] at h
  | some face =>
    obtain rfl := index_eq_some_iff.1 found
    cases key : keyCode input with
    | none =>
      rw [encodeUserInput_face, key] at h
      have failed : (1 : Int) = 0 := congrArg Prod.fst h
      cases failed
    | some code =>
      obtain ⟨encoded', run, text⟩ := encodeUserInput_of_code key face buffer
      rw [run] at h
      cases h
      exact ⟨face, code, rfl, rfl, text⟩

/-- The state of `listen_to_curses_and_send_message_to_socket` and what it shares. -/
structure CursesThread where
  /-- `*cube_face_id_ptr`. -/
  cubeFaceId : Int
  msg : Fin 4 → Char8
  /-- What each `fputs` to the socket wrote. -/
  socket : List (List Char8)
  updateViewSemaphore : Nat

/-- One key of the loop. The cases `'a'`, `'d'` and `' '` have the same body. -/
def cursesKey (s : CursesThread) (input : Int) : CursesThread :=
  if input = keyA ∨ input = keyD ∨ input = keySpace then
    let (status, msg) := encodeUserInput input s.cubeFaceId s.msg
    if status ≠ 0 then { s with msg := msg }
    else { s with msg := msg, socket := s.socket ++ [fputs (List.ofFn msg)] }
  else if FaceKey input then
    { s with cubeFaceId := input - 48, updateViewSemaphore := s.updateViewSemaphore + 1 }
  else s

/-- A key writes at most one message to the socket. -/
theorem cursesKey_socket (s : CursesThread) (input : Int) : ∃ written,
    (cursesKey s input).socket = s.socket ++ written ∧
      ∀ l ∈ written, ∃ (face : FaceId) (code : Fin 3), l = messageLine face code := by
  by_cases command : input = keyA ∨ input = keyD ∨ input = keySpace
  · rw [cursesKey, if_pos command]
    cases encoded : encodeUserInput input s.cubeFaceId s.msg with
    | mk status msg =>
      by_cases failed : status ≠ 0
      · exact ⟨[], by simp [failed], by simp⟩
      · obtain rfl : status = 0 := not_not.1 failed
        obtain ⟨face, code, -, -, text⟩ := encodeUserInput_success encoded
        refine ⟨[messageLine face code], ?_, by simp⟩
        rw [← text]
        simp only [ne_eq, not_true_eq_false, if_false]
  · by_cases face : FaceKey input
    · exact ⟨[], by simp [cursesKey, command, face], by simp⟩
    · exact ⟨[], by simp [cursesKey, command, face], by simp⟩

/-- The loop over the keys `getch` returns, up to the first `q` or `Q`. -/
def cursesLoop (s : CursesThread) : List Int → CursesThread
  | [] => s
  | input :: keys =>
    let s := cursesKey s input
    if input = keyQ ∨ input = keyUpperQ then s else cursesLoop s keys

end Rubiks

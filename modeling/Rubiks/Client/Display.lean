import Rubiks.Client.Input

/-!
# What a client displays (`rubiks_client.c`)

Three threads of a client share the face number, the cube to display and a
semaphore: the key thread writes the face number and posts, the socket thread
decodes a broadcast and posts, the view thread waits and draws. The face number
is whatever `malloc` returned until a digit is pressed, so a broadcast that
arrives first draws a face out of range (`drawn_range_iff`).
-/

namespace Rubiks

/-- `client_thread_args`, the points of the three threads, and the face numbers
passed to `update_curses_with_cube_state` so far. -/
structure Client where
  curses : CursesThread
  /-- The key thread has left its loop. -/
  quit : Bool
  cubeStateToDisplay : Cube
  /-- The view thread is between `sem_wait` and the drawing. -/
  woken : Bool
  drawn : List Int

/-- `make_client_thread_args`, with what `malloc` left in the face number and the
stack in the message buffer. -/
def makeClientThreadArgs (cubeFaceId : Int) (msg : Fin 4 → Char8) : Client where
  curses := { cubeFaceId := cubeFaceId, msg := msg, socket := [], updateViewSemaphore := 0 }
  quit := false
  cubeStateToDisplay := makeCube
  woken := false
  drawn := []

inductive ClientEvent where
  /-- `getch` returns in the key thread. -/
  | key (input : Int)
  /-- `getline` returns in the socket thread. -/
  | line (text : List Char8)
  /-- `sem_wait` returns in the view thread. -/
  | wake
  /-- The view thread reads the face number and draws. -/
  | draw

/-- One step of a client; `none` when the thread cannot take it or `decode` reads
past the line. -/
def clientStep (s : Client) : ClientEvent → Option Client
  | .key input =>
    if s.quit then none
    else some { s with curses := cursesKey s.curses input, quit := input = keyQ ∨ input = keyUpperQ }
  | .line text => do
    let cube ← decode s.cubeStateToDisplay (lineBuffer text)
    some { s with
      cubeStateToDisplay := cube
      curses := { s.curses with updateViewSemaphore := s.curses.updateViewSemaphore + 1 } }
  | .wake =>
    if s.woken ∨ s.curses.updateViewSemaphore = 0 then none
    else some { s with
      woken := true
      curses := { s.curses with updateViewSemaphore := s.curses.updateViewSemaphore - 1 } }
  | .draw =>
    -- a face number out of range is recorded too; the source then reads past its array
    if s.woken then some { s with woken := false, drawn := s.drawn ++ [s.curses.cubeFaceId] } else none

section Steps

variable {s s' : Client}

theorem clientStep_key {input : Int} : clientStep s (.key input) = some s' ↔
    s.quit = false ∧
      s' = { s with curses := cursesKey s.curses input, quit := input = keyQ ∨ input = keyUpperQ } := by
  simp only [clientStep, Option.ite_none_left_eq_some, Bool.not_eq_true, Option.some.injEq, eq_comm (a := s')]

theorem clientStep_line {text : List Char8} : clientStep s (.line text) = some s' ↔
    ∃ cube, decode s.cubeStateToDisplay (lineBuffer text) = some cube ∧ s' = { s with
      cubeStateToDisplay := cube
      curses := { s.curses with updateViewSemaphore := s.curses.updateViewSemaphore + 1 } } := by
  simp only [clientStep, Option.bind_eq_bind, Option.bind_eq_some_iff, Option.some.injEq, eq_comm (a := s')]

theorem clientStep_wake : clientStep s .wake = some s' ↔
    ¬ (s.woken ∨ s.curses.updateViewSemaphore = 0) ∧ s' = { s with
      woken := true
      curses := { s.curses with updateViewSemaphore := s.curses.updateViewSemaphore - 1 } } := by
  simp only [clientStep, Option.ite_none_left_eq_some, Option.some.injEq, eq_comm (a := s')]

theorem clientStep_draw : clientStep s .draw = some s' ↔
    s.woken ∧ s' = { s with woken := false, drawn := s.drawn ++ [s.curses.cubeFaceId] } := by
  simp only [clientStep, Option.ite_none_right_eq_some, Option.some.injEq, eq_comm (a := s')]

/-- A step writes messages to the socket, if anything. -/
theorem clientStep_socket {event : ClientEvent} (step : clientStep s event = some s') :
    ∃ written, s'.curses.socket = s.curses.socket ++ written ∧
      ∀ l ∈ written, ∃ (face : FaceId) (code : Fin 3), l = messageLine face code := by
  have silent : s'.curses.socket = s.curses.socket → ∃ written, s'.curses.socket = s.curses.socket ++ written ∧
      ∀ l ∈ written, ∃ (face : FaceId) (code : Fin 3), l = messageLine face code := by
    intro same
    exact ⟨[], by rw [same, List.append_nil], by simp⟩
  cases event with
  | key input =>
    obtain ⟨-, rfl⟩ := clientStep_key.1 step
    exact cursesKey_socket s.curses input
  | line text =>
    obtain ⟨cube, -, rfl⟩ := clientStep_line.1 step
    exact silent rfl
  | wake =>
    obtain ⟨-, rfl⟩ := clientStep_wake.1 step
    exact silent rfl
  | draw =>
    obtain ⟨-, rfl⟩ := clientStep_draw.1 step
    exact silent rfl

/-- Only a received line changes the cube to display. -/
theorem clientStep_display {event : ClientEvent} (step : clientStep s event = some s')
    (noLine : ∀ text, event ≠ .line text) : s'.cubeStateToDisplay = s.cubeStateToDisplay := by
  cases event with
  | key input =>
    obtain ⟨-, rfl⟩ := clientStep_key.1 step
    rfl
  | line text => exact absurd rfl (noLine text)
  | wake =>
    obtain ⟨-, rfl⟩ := clientStep_wake.1 step
    rfl
  | draw =>
    obtain ⟨-, rfl⟩ := clientStep_draw.1 step
    rfl

end Steps

/-- A run of a client, in any order of its threads' steps. -/
def clientRun (s : Client) (events : List ClientEvent) : Option Client := events.foldlM clientStep s

theorem clientRun_cons (s : Client) (event : ClientEvent) (events : List ClientEvent) :
    clientRun s (event :: events) = (clientStep s event).bind fun s => clientRun s events := rfl

/-- The face numbers `update_curses_with_cube_state` may be given. -/
def FaceInRange (cubeFaceId : Int) : Prop := 0 ≤ cubeFaceId ∧ cubeFaceId ≤ 5

instance (cubeFaceId : Int) : Decidable (FaceInRange cubeFaceId) := inferInstanceAs (Decidable (_ ∧ _))

/-- The event is the press of a digit `'0'..'5'`. -/
def DigitPress (event : ClientEvent) : Prop := ∃ input, event = .key input ∧ FaceKey input

/-- Every drawing comes after some digit was pressed. -/
def DigitBeforeDraw (events : List ClientEvent) : Prop :=
  ∀ before after, events = before ++ .draw :: after → ∃ event ∈ before, DigitPress event

/-- The key thread changes the face number at digits only. -/
theorem cursesKey_cubeFaceId (s : CursesThread) (input : Int) :
    (cursesKey s input).cubeFaceId = if FaceKey input then input - 48 else s.cubeFaceId := by
  by_cases command : input = keyA ∨ input = keyD ∨ input = keySpace
  · have other : ¬ FaceKey input := by
      unfold FaceKey keyA keyD keySpace at *
      omega
    rw [cursesKey, if_pos command, if_neg other]
    cases encodeUserInput input s.cubeFaceId s.msg with
    | mk status msg => by_cases failed : status ≠ 0 <;> simp [failed]
  · by_cases face : FaceKey input
    · rw [cursesKey, if_neg command, if_pos face, if_pos face]
    · rw [cursesKey, if_neg command, if_neg face, if_neg face]

/-- Only a digit posts. -/
theorem cursesKey_posts (c : CursesThread) (input : Int) :
    (cursesKey c input).updateViewSemaphore = c.updateViewSemaphore + if FaceKey input then 1 else 0 := by
  by_cases command : input = keyA ∨ input = keyD ∨ input = keySpace
  · have other : ¬ FaceKey input := by
      unfold FaceKey keyA keyD keySpace at *
      omega
    rw [cursesKey, if_pos command, if_neg other]
    cases encodeUserInput input c.cubeFaceId c.msg with
    | mk status msg => by_cases failed : status ≠ 0 <;> simp [failed]
  · by_cases face : FaceKey input <;> simp [cursesKey, command, face]

/-- The face number after an event. -/
def faceAfter (cubeFaceId : Int) : ClientEvent → Int
  | .key input => if FaceKey input then input - 48 else cubeFaceId
  | _ => cubeFaceId

/-- The face numbers drawn in a run. -/
def drawnFaces (cubeFaceId : Int) : List ClientEvent → List Int
  | [] => []
  | .draw :: events => cubeFaceId :: drawnFaces cubeFaceId events
  | event :: events => drawnFaces (faceAfter cubeFaceId event) events

/-- What a step does to the face number and the drawings. -/
theorem clientStep_faces {s s' : Client} {event : ClientEvent} (step : clientStep s event = some s') :
    s'.curses.cubeFaceId = faceAfter s.curses.cubeFaceId event ∧
      s'.drawn = s.drawn ++ drawnFaces s.curses.cubeFaceId [event] := by
  cases event with
  | key input =>
    obtain ⟨-, rfl⟩ := clientStep_key.1 step
    exact ⟨cursesKey_cubeFaceId _ _, (List.append_nil _).symm⟩
  | line text =>
    obtain ⟨cube, -, rfl⟩ := clientStep_line.1 step
    exact ⟨rfl, (List.append_nil _).symm⟩
  | wake =>
    obtain ⟨-, rfl⟩ := clientStep_wake.1 step
    exact ⟨rfl, (List.append_nil _).symm⟩
  | draw =>
    obtain ⟨-, rfl⟩ := clientStep_draw.1 step
    exact ⟨rfl, rfl⟩

/-- A run draws the faces its events say. -/
theorem clientRun_drawn {s s' : Client} {events : List ClientEvent} (run : clientRun s events = some s') :
    s'.drawn = s.drawn ++ drawnFaces s.curses.cubeFaceId events := by
  induction events generalizing s with
  | nil =>
    cases run
    exact (List.append_nil _).symm
  | cons event events ih =>
    obtain ⟨mid, step, rest⟩ := Option.bind_eq_some_iff.1 run
    obtain ⟨face, drawn⟩ := clientStep_faces step
    rw [ih rest, drawn, face, List.append_assoc]
    cases event <;> rfl

theorem digitBeforeDraw_nil : DigitBeforeDraw [] := by
  intro before after split
  cases before <;> cases split

/-- Whether every drawing follows a digit, one event at a time. -/
theorem digitBeforeDraw_cons (event : ClientEvent) (events : List ClientEvent) :
    DigitBeforeDraw (event :: events) ↔ DigitPress event ∨ (event ≠ .draw ∧ DigitBeforeDraw events) := by
  constructor
  · intro all
    by_cases press : DigitPress event
    · exact .inl press
    · refine .inr ⟨?_, ?_⟩
      · rintro rfl
        obtain ⟨e, mem, -⟩ := all [] events rfl
        cases mem
      · intro before after split
        obtain ⟨e, mem, pressed⟩ := all (event :: before) after (by rw [split]; rfl)
        rcases List.mem_cons.1 mem with rfl | mem
        · exact absurd pressed press
        · exact ⟨e, mem, pressed⟩
  · rintro (press | ⟨notDraw, rest⟩) before after split
    · cases before with
      | nil =>
        obtain ⟨rfl, -⟩ := List.cons.inj split
        obtain ⟨input, eq, -⟩ := press
        cases eq
      | cons e before =>
        obtain ⟨rfl, -⟩ := List.cons.inj split
        exact ⟨event, List.mem_cons_self, press⟩
    · cases before with
      | nil => exact absurd (List.cons.inj split).1 notDraw
      | cons e before =>
        obtain ⟨e, mem, pressed⟩ := rest before after (List.cons.inj split).2
        exact ⟨e, List.mem_cons_of_mem _ mem, pressed⟩

/-- Once the face number is in range it stays there. -/
theorem FaceInRange.faceAfter {cubeFaceId : Int} (h : FaceInRange cubeFaceId) (event : ClientEvent) :
    FaceInRange (faceAfter cubeFaceId event) := by
  cases event with
  | key input =>
    by_cases face : FaceKey input
    · rw [Rubiks.faceAfter, if_pos face]
      unfold FaceKey at face
      unfold FaceInRange
      omega
    · rw [Rubiks.faceAfter, if_neg face]
      exact h
  | line | wake | draw => exact h

theorem faceAfter_digit (cubeFaceId : Int) {event : ClientEvent} (press : DigitPress event) :
    FaceInRange (faceAfter cubeFaceId event) := by
  obtain ⟨input, rfl, face⟩ := press
  rw [faceAfter, if_pos face]
  unfold FaceKey at face
  unfold FaceInRange
  omega

theorem faceAfter_other (cubeFaceId : Int) {event : ClientEvent} (other : ¬ DigitPress event) :
    faceAfter cubeFaceId event = cubeFaceId := by
  cases event with
  | key input => exact if_neg fun face => other ⟨input, rfl, face⟩
  | line | wake | draw => rfl

/-- The faces of the drawings are in range when the first face number is or a
digit comes before each. -/
theorem drawnFaces_range_iff (cubeFaceId : Int) (events : List ClientEvent) :
    (∀ f ∈ drawnFaces cubeFaceId events, FaceInRange f) ↔ FaceInRange cubeFaceId ∨ DigitBeforeDraw events := by
  induction events generalizing cubeFaceId with
  | nil => exact iff_of_true (by simp [drawnFaces]) (.inr digitBeforeDraw_nil)
  | cons event events ih =>
    rw [digitBeforeDraw_cons]
    by_cases draws : event = .draw
    · subst draws
      have noPress : ¬ DigitPress .draw := by
        rintro ⟨input, eq, -⟩
        cases eq
      rw [drawnFaces, List.forall_mem_cons, ih]
      simp only [noPress, ne_eq, not_true_eq_false, false_and, or_false, and_iff_left_iff_imp]
      exact .inl
    · have skip : drawnFaces cubeFaceId (event :: events) = drawnFaces (faceAfter cubeFaceId event) events := by
        cases event <;> first | rfl | exact absurd rfl draws
      rw [skip, ih]
      by_cases press : DigitPress event
      · exact iff_of_true (.inl (faceAfter_digit _ press)) (.inr (.inl press))
      · rw [faceAfter_other _ press]
        simp only [press, ne_eq, draws, not_false_eq_true, true_and, false_or]

/-- **When a client draws only real faces.** In every run from
`make_client_thread_args`: exactly when the allocation held a face number or a
digit is pressed before each drawing. -/
theorem drawn_range_iff {cubeFaceId : Int} {msg : Fin 4 → Char8} {events : List ClientEvent} {s : Client}
    (run : clientRun (makeClientThreadArgs cubeFaceId msg) events = some s) :
    (∀ f ∈ s.drawn, FaceInRange f) ↔ FaceInRange cubeFaceId ∨ DigitBeforeDraw events := by
  rw [clientRun_drawn run]
  exact drawnFaces_range_iff cubeFaceId events

/-- A broadcast is drawn on the current face. -/
theorem clientRun_broadcast {s : Client} (idle : s.woken = false) {c : Cube} (digits : c.DigitColors) :
    clientRun s [.line (cubeLine c), .wake, .draw] = some { s with
      cubeStateToDisplay := s.cubeStateToDisplay.paint c.coloring
      drawn := s.drawn ++ [s.curses.cubeFaceId] } := by
  simp [clientRun, clientStep, decode_cubeLine digits.framed, idle]

/-- A digit, then a broadcast: face 3 is drawn. -/
theorem drawn_range_digit_first : ∃ s,
    clientRun (makeClientThreadArgs 7 fun _ => nul) [.key 51, .line (cubeLine makeCube), .wake, .draw] = some s ∧
      ∀ f ∈ s.drawn, FaceInRange f := by
  have pressed : clientStep (makeClientThreadArgs 7 fun _ => nul) (.key 51) = some
      { makeClientThreadArgs 3 fun _ => nul with curses := ⟨3, fun _ => nul, [], 1⟩ } := rfl
  obtain ⟨s, run⟩ : ∃ s, clientRun (makeClientThreadArgs 7 fun _ => nul)
      [.key 51, .line (cubeLine makeCube), .wake, .draw] = some s := by
    rw [clientRun_cons, pressed, Option.bind_some]
    exact ⟨_, clientRun_broadcast rfl reachable_makeCube.digitColors⟩
  refine ⟨s, run, (drawn_range_iff run).2 (.inr ?_)⟩
  exact (digitBeforeDraw_cons _ _).2 (.inl ⟨51, rfl, by decide⟩)

/-- A broadcast wakes the view before any key: face 7 is drawn. -/
theorem drawn_range_fails : ¬ ∀ (cubeFaceId : Int) (msg : Fin 4 → Char8) (events : List ClientEvent) (s : Client),
    clientRun (makeClientThreadArgs cubeFaceId msg) events = some s → ∀ f ∈ s.drawn, FaceInRange f := by
  intro all
  have run := clientRun_broadcast (s := makeClientThreadArgs 7 fun _ => nul) rfl reachable_makeCube.digitColors
  have seven := all 7 (fun _ => nul) _ _ run 7 (by simp [makeClientThreadArgs])
  exact absurd seven (by decide)

end Rubiks

import Rubiks.Client.Drawing
import Rubiks.Client.Input
import Rubiks.Logic.Transition

/-!
# The client's screen

No lock protects the cube and the face number the client's threads share: the socket
thread stores 54 colours one by one while the view thread reads the nine it draws, so
a picture may mix two broadcasts. Every change is followed by a post, and the view
thread draws after each post it takes. So once the three threads rest, the screen
shows the chosen face of the last broadcast, whatever was drawn in between.
-/

namespace Rubiks

open Logic

/-! ## The threads -/

/-- The squares in the order of the loops of `decode`. -/
def squares : List Square := (List.finRange 6).flatMap fun i => (List.finRange 9).map fun j => (i, j)

/-- The stores of `decode`; reading past the end of the buffer is undefined. -/
def decodeStores (toDecode : List Char8) : Option (List (Square × Int)) :=
  if 54 ≤ toDecode.length then
    some (squares.map fun s => (s, (toDecode.getD (s.1.val * 9 + s.2.val) nul).toInt - 48))
  else none

/-- The cube after the stores. -/
def storeColors (c : Cube) (stores : List (Square × Int)) : Cube := stores.foldl (fun c w => c.setColor w.1 w.2) c

/-- The stores of `decode` are what `decode` does. -/
theorem storeColors_decodeStores {toDecode : List Char8} {stores : List (Square × Int)}
    (read : decodeStores toDecode = some stores) (c : Cube) : decode c toDecode = some (storeColors c stores) := by
  rw [decodeStores, Option.ite_none_right_eq_some] at read
  obtain ⟨long, same⟩ := read
  cases same
  have all : ∀ s : Square, s ∈ squares := by decide
  rw [decode_eq c long, storeColors, Cube.foldl_setColor, overwrite_cells all]

/-- Where the socket thread is; `storing []` is before its `sem_post`. -/
inductive SocketPoint where
  /-- In `getline`. -/
  | reading
  | storing (stores : List (Square × Int))

/-- Where the view thread is. -/
inductive ViewPoint where
  /-- In `sem_wait`. -/
  | waiting
  /-- The face number is not read yet. -/
  | woken
  /-- In `update_curses_with_cube_state`, the places still to draw. -/
  | drawing (cubeFaceId : FaceId) (rest : List Place)

/-- The client's threads, what they share and the window. `received` and `posts`
record the lines of the socket and how many posts were or will be made. -/
structure RedrawState (W : Type) where
  cubeFaceId : Int
  updateViewSemaphore : Nat
  cubeStateToDisplay : Cube
  /-- The key thread has written the face number, `sem_post` is next. -/
  keyPosting : Bool
  socket : SocketPoint
  view : ViewPoint
  window : W
  received : List (List Char8)
  posts : Nat

inductive RedrawEvent where
  /-- `getch` returns in the key thread. -/
  | key (input : Int)
  /-- The key thread posts. -/
  | post
  /-- `getline` returns in the socket thread. -/
  | line (text : List Char8)
  /-- The socket thread stores a colour, or posts after the last. -/
  | store
  /-- The next step of the view thread. -/
  | view

section Threads

variable {W : Type} (C : Window W)

def redrawStep (s : RedrawState W) : RedrawEvent → Option (RedrawState W)
  | .key input =>
    if s.keyPosting then none
    else if FaceKey input then some { s with cubeFaceId := input - 48, keyPosting := true, posts := s.posts + 1 }
    -- any other key sends a message or does nothing
    else some s
  | .post =>
    if s.keyPosting then some { s with keyPosting := false, updateViewSemaphore := s.updateViewSemaphore + 1 } else none
  | .line text =>
    match s.socket with
    | .reading => do
      let stores ← decodeStores (lineBuffer text)
      some { s with socket := .storing stores, received := s.received ++ [text], posts := s.posts + 1 }
    | _ => none
  | .store =>
    match s.socket with
    | .reading => none
    | .storing ((square, v) :: stores) =>
      some { s with cubeStateToDisplay := s.cubeStateToDisplay.setColor square v, socket := .storing stores }
    | .storing [] => some { s with socket := .reading, updateViewSemaphore := s.updateViewSemaphore + 1 }
  | .view =>
    match s.view with
    | .waiting =>
      if s.updateViewSemaphore = 0 then none
      else some { s with view := .woken, updateViewSemaphore := s.updateViewSemaphore - 1 }
    | .woken => do
      let face ← index 6 s.cubeFaceId
      some { s with view := .drawing face places }
    | .drawing face (p :: rest) =>
      let color := (s.cubeStateToDisplay.faces face).colors p.square
      some { s with view := .drawing face rest, window := drawSquare C C.refresh color p s.window }
    | .drawing _ [] => some { s with view := .waiting }

/-- `make_client_thread_args` and `initscr`: nothing is drawn yet. -/
def RedrawState.start (w : W) (cubeFaceId : Int) : RedrawState W where
  cubeFaceId := cubeFaceId
  updateViewSemaphore := 0
  cubeStateToDisplay := makeCube
  keyPosting := false
  socket := .reading
  view := .waiting
  window := w
  received := []
  posts := 0

/-- The threads on the window `w`; the face number is whatever `malloc` returned. -/
def redraw (w : W) : System (RedrawState W) RedrawEvent where
  init s := ∃ cubeFaceId, s = .start w cubeFaceId
  step := redrawStep C

end Threads

/-! ## What is on the screen -/

/-- The cube once the socket thread has made its stores. -/
def SocketPoint.finish (c : Cube) : SocketPoint → Cube
  | .reading => c
  | .storing stores => storeColors c stores

/-- A post is owed or not answered yet. -/
def RedrawState.Pending {W : Type} (s : RedrawState W) : Prop :=
  s.keyPosting = true ∨ s.socket ≠ .reading ∨ 0 < s.updateViewSemaphore ∨ s.view = .woken

/-- The cells outside the picture are those of `w`. -/
def Framed {W : Type} (C : Window W) (w w' : W) : Prop := ∀ y x, ¬ InPicture y → C.cell w' y x = C.cell w y x

/-- What holds between any two steps: with no post to come, what is drawn so far of
the current face is up to date. -/
structure RedrawInv {W : Type} (C : Window W) (w : W) (s : RedrawState W) : Prop where
  cube : s.received.foldlM (fun c text => decode c (lineBuffer text)) makeCube =
    some (s.socket.finish s.cubeStateToDisplay)
  framed : Framed C w s.window
  untouched : s.posts = 0 → ¬ s.Pending ∧ s.view = .waiting ∧ s.window = w
  drawing : ¬ s.Pending → ∀ f rest, s.view = .drawing f rest → s.cubeFaceId = (f : Nat) ∧
    ∃ done w', done ++ rest = places ∧ Framed C w w' ∧ s.window = done.foldl
      (fun w p => drawSquare C C.refresh ((s.cubeStateToDisplay.faces f).colors p.square) p w) w'
  drawn : ¬ s.Pending → s.posts ≠ 0 → s.view = .waiting → ∃ f : FaceId, s.cubeFaceId = (f : Nat) ∧
    (Drawable (s.cubeStateToDisplay.faces f).colors →
      C.cell s.window = picture (s.cubeStateToDisplay.faces f).colors (C.cell w))

section Invariant

variable {W : Type} {C : Window W} {height width : Nat} {w w' : W} {s s' : RedrawState W}

theorem Framed.drawSquare (h : C.Lawful height width) (tall : 45 ≤ height) (wide : 90 ≤ width) (framed : Framed C w w')
    (color : Int) (p : Place) : Framed C w (drawSquare C C.refresh color p w') := by
  intro y x outside
  rw [drawSquare_spec h (.refresh h) tall wide, squareCells, if_neg]
  · exact framed y x outside
  · unfold InPicture at outside
    omega

/-- A picture shows the window outside it and nothing of it inside. -/
theorem Framed.picture_eq (framed : Framed C w w') (colors : SquareId → Int) :
    picture colors (C.cell w') = picture colors (C.cell w) := by
  funext y x
  unfold picture
  split
  · rfl
  · exact framed y x ‹_›

/-- The view thread's own steps, but for its wake-up, leave the posts as they are. -/
theorem RedrawState.Pending.of_view (pending : s.Pending) (awake : s.view ≠ .woken) {view : ViewPoint} :
    RedrawState.Pending { s with view := view, window := w } := by
  rcases pending with posting | busy | posted | woken
  · exact .inl posting
  · exact .inr (.inl busy)
  · exact .inr (.inr (.inl posted))
  · exact absurd woken awake

theorem RedrawInv.start (cubeFaceId : Int) : RedrawInv C w (.start w cubeFaceId) where
  cube := rfl
  framed _ _ _ := rfl
  untouched _ := ⟨by simp [RedrawState.Pending, RedrawState.start], rfl, rfl⟩
  drawing _ f rest view := by cases view
  drawn _ posts := absurd rfl posts

/-- While a post is to come, nothing has to be up to date. -/
theorem RedrawInv.of_pending (pending : s.Pending) (posts : s.posts ≠ 0) (framed : Framed C w s.window)
    (cube : s.received.foldlM (fun c text => decode c (lineBuffer text)) makeCube =
      some (s.socket.finish s.cubeStateToDisplay)) : RedrawInv C w s where
  cube := cube
  framed := framed
  untouched none := absurd none posts
  drawing settled := absurd pending settled
  drawn settled := absurd pending settled

theorem RedrawInv.posts_ne (inv : RedrawInv C w s) (touched : s.Pending ∨ s.view ≠ .waiting) : s.posts ≠ 0 := by
  intro none
  obtain ⟨settled, waiting, -⟩ := inv.untouched none
  rcases touched with pending | away
  · exact settled pending
  · exact away waiting

/-- A step of the key or the socket thread keeps the invariant. -/
theorem RedrawInv.input_step (inv : RedrawInv C w s) {event : RedrawEvent} (other : event ≠ .view)
    (step : redrawStep C s event = some s') : RedrawInv C w s' := by
  cases event with
  | key input =>
    rw [redrawStep, Option.ite_none_left_eq_some] at step
    obtain ⟨-, step⟩ := step
    by_cases face : FaceKey input
    · rw [if_pos face] at step
      cases step
      exact .of_pending (.inl rfl) (Nat.succ_ne_zero _) inv.framed inv.cube
    · rw [if_neg face] at step
      cases step
      exact inv
  | post =>
    rw [redrawStep, Option.ite_none_right_eq_some] at step
    obtain ⟨posting, step⟩ := step
    cases step
    exact .of_pending (.inr (.inr (.inl (Nat.succ_pos _)))) (inv.posts_ne (.inl (.inl posting))) inv.framed inv.cube
  | line text =>
    cases point : s.socket with
    | reading =>
      simp only [redrawStep, point] at step
      obtain ⟨stores, read, step⟩ := Option.bind_eq_some_iff.1 step
      cases step
      refine .of_pending (.inr (.inl (by simp))) (Nat.succ_ne_zero _) inv.framed ?_
      have before := inv.cube
      rw [point] at before
      rw [List.foldlM_append, before]
      have decoded : ([text].foldlM (fun c text => decode c (lineBuffer text)) s.cubeStateToDisplay) =
          some (storeColors s.cubeStateToDisplay stores) := by
        rw [List.foldlM_cons, storeColors_decodeStores read]
        rfl
      exact decoded
    | storing stores =>
      simp only [redrawStep, point] at step
      cases step
  | store =>
    have before := inv.cube
    cases point : s.socket with
    | reading =>
      simp only [redrawStep, point] at step
      cases step
    | storing stores =>
      rw [point] at before
      have posts := inv.posts_ne (.inl (.inr (.inl (by simp [point]))))
      rcases stores with _ | ⟨⟨square, v⟩, stores⟩
      · simp only [redrawStep, point] at step
        cases step
        exact .of_pending (.inr (.inr (.inl (Nat.succ_pos _)))) posts inv.framed before
      · simp only [redrawStep, point] at step
        cases step
        exact .of_pending (.inr (.inl (by simp))) posts inv.framed before
  | view => exact absurd rfl other

/-- A step of the view thread keeps the invariant. -/
theorem RedrawInv.view_step (h : C.Lawful height width) (tall : 45 ≤ height) (wide : 90 ≤ width)
    (inv : RedrawInv C w s) (step : redrawStep C s .view = some s') : RedrawInv C w s' := by
  cases point : s.view with
  | waiting =>
    simp only [redrawStep, point, Option.ite_none_left_eq_some] at step
    obtain ⟨posted, step⟩ := step
    cases step
    have posts := inv.posts_ne (.inl (.inr (.inr (.inl (Nat.pos_of_ne_zero posted)))))
    exact .of_pending (.inr (.inr (.inr rfl))) posts inv.framed inv.cube
  | woken =>
    simp only [redrawStep, point] at step
    obtain ⟨face, inRange, step⟩ := Option.bind_eq_some_iff.1 step
    cases step
    have posts := inv.posts_ne (.inr (by simp [point]))
    exact {
      cube := inv.cube
      framed := inv.framed
      untouched := fun none => absurd none posts
      drawing := by
        rintro - f rest ⟨⟩
        exact ⟨index_eq_some_iff.1 inRange, [], s.window, rfl, inv.framed, rfl⟩
      drawn := by rintro - - ⟨⟩ }
  | drawing face rest =>
    have posts := inv.posts_ne (.inr (by simp [point]))
    cases rest with
    | nil =>
      simp only [redrawStep, point] at step
      cases step
      refine { cube := inv.cube, framed := inv.framed, untouched := fun none => absurd none posts, drawing := ?_,
               drawn := ?_ }
      · rintro - f rest ⟨⟩
      · rintro settled - -
        have quiet : ¬ s.Pending := fun pending => settled (pending.of_view (by simp [point]))
        obtain ⟨face', done, w', all, framed, drawn⟩ := inv.drawing quiet face [] point
        rw [List.append_nil] at all
        refine ⟨face, face', fun drawable => ?_⟩
        rw [drawn, all]
        exact (drawFace_cells h (.refresh h) tall wide drawable w').trans (framed.picture_eq _)
    | cons p rest =>
      simp only [redrawStep, point] at step
      cases step
      refine { cube := inv.cube, framed := inv.framed.drawSquare h tall wide _ p,
               untouched := fun none => absurd none posts, drawing := ?_, drawn := ?_ }
      · rintro settled f rest' ⟨⟩
        have quiet : ¬ s.Pending := fun pending => settled (pending.of_view (by simp [point]))
        obtain ⟨face', done, w', all, framed, drawn⟩ := inv.drawing quiet face (p :: rest) point
        refine ⟨face', done ++ [p], w', by rw [← all, List.append_assoc]; rfl, framed, ?_⟩
        rw [List.foldl_append, ← drawn]
        rfl
      · rintro - - ⟨⟩

theorem redrawInv (h : C.Lawful height width) (tall : 45 ≤ height) (wide : 90 ≤ width)
    (reach : (redraw C w).Reach s) : RedrawInv C w s := by
  refine reach.invariant (fun s start => ?_) fun s event s' inv step => ?_
  · obtain ⟨cubeFaceId, rfl⟩ := start
    exact .start cubeFaceId
  · have taken : redrawStep C s event = some s' := step
    by_cases view : event = .view
    · subst view
      exact inv.view_step h tall wide taken
    · exact inv.input_step view taken

end Invariant

/-! ## The threads come to rest -/

/-- The threads go on by themselves: no key is pressed and no line arrives. -/
def RedrawEvent.Quiet : RedrawEvent → Prop
  | .key _ | .line _ => False
  | .post | .store | .view => True

/-- Steps of the socket thread until it reads the next line and its post is answered. -/
def SocketPoint.cost : SocketPoint → Nat
  | .reading => 0
  | .storing stores => stores.length + 13

/-- Steps of the view thread until it waits again. -/
def ViewPoint.cost : ViewPoint → Nat
  | .waiting => 0
  | .woken => 11
  | .drawing _ rest => rest.length + 1

/-- Steps the threads can still take by themselves. -/
def RedrawState.cost {W : Type} (s : RedrawState W) : Nat :=
  13 * s.keyPosting.toNat + s.socket.cost + 12 * s.updateViewSemaphore + s.view.cost

section Rest

variable {W : Type} {C : Window W} {w : W} {s s' : RedrawState W}

theorem redrawStep_cost {event : RedrawEvent} (quiet : event.Quiet) (step : redrawStep C s event = some s') :
    s'.cost < s.cost := by
  cases event with
  | key | line => exact quiet.elim
  | post =>
    rw [redrawStep, Option.ite_none_right_eq_some] at step
    obtain ⟨posting, step⟩ := step
    cases step
    simp only [RedrawState.cost, posting, Bool.toNat_true, Bool.toNat_false]
    omega
  | store =>
    rcases point : s.socket with _ | _ | ⟨⟨square, v⟩, stores⟩ <;>
      simp only [redrawStep, point, reduceCtorEq, Option.some.injEq] at step <;> rw [← step]
    · simp only [RedrawState.cost, SocketPoint.cost, point, List.length_nil]
      omega
    · simp [RedrawState.cost, SocketPoint.cost, point]
  | view =>
    cases point : s.view with
    | waiting =>
      simp only [redrawStep, point, Option.ite_none_left_eq_some] at step
      obtain ⟨posted, step⟩ := step
      cases step
      simp only [RedrawState.cost, ViewPoint.cost, point]
      omega
    | woken =>
      simp only [redrawStep, point] at step
      obtain ⟨face, -, step⟩ := Option.bind_eq_some_iff.1 step
      cases step
      simp [RedrawState.cost, ViewPoint.cost, point, places]
    | drawing face rest =>
      cases rest with
      | nil =>
        simp only [redrawStep, point] at step
        cases step
        simp [RedrawState.cost, ViewPoint.cost, point]
      | cons p rest =>
        simp only [redrawStep, point] at step
        cases step
        simp [RedrawState.cost, ViewPoint.cost, point]

/-- The three threads wait: for a key, for a line and for a post. -/
structure RedrawState.AtRest (s : RedrawState W) : Prop where
  key : s.keyPosting = false
  socket : s.socket = .reading
  taken : s.updateViewSemaphore = 0
  view : s.view = .waiting

/-- Threads that cannot go on by themselves are at rest, or the view thread is about to
draw a face out of range. -/
theorem atRest_of_stuck (stuck : (redraw C w).Stuck RedrawEvent.Quiet s) :
    s.AtRest ∨ (s.view = .woken ∧ index 6 s.cubeFaceId = none) := by
  have key : s.keyPosting = false := by
    rw [← Bool.not_eq_true]
    intro posting
    have step : (redraw C w).step s .post = some _ := if_pos posting
    exact stuck.never step trivial
  have socket : s.socket = .reading := by
    rcases point : s.socket with _ | _ | ⟨store, stores⟩
    · rfl
    all_goals
      obtain ⟨s', step⟩ : ∃ s', (redraw C w).step s .store = some s' :=
        ⟨_, by simp only [redraw, redrawStep, point]; rfl⟩
      exact absurd trivial (stuck.never step)
  cases point : s.view with
  | waiting =>
    refine .inl ⟨key, socket, ?_, point⟩
    by_contra posted
    obtain ⟨s', step⟩ : ∃ s', (redraw C w).step s .view = some s' :=
      ⟨_, by simp only [redraw, redrawStep, point, if_neg posted]; rfl⟩
    exact stuck.never step trivial
  | woken =>
    cases inRange : index 6 s.cubeFaceId with
    | none => exact .inr ⟨rfl, rfl⟩
    | some face =>
      obtain ⟨s', step⟩ : ∃ s', (redraw C w).step s .view = some s' :=
        ⟨_, by simp only [redraw, redrawStep, point, inRange]; rfl⟩
      exact absurd trivial (stuck.never step)
  | drawing face rest =>
    cases rest with
    | nil | cons =>
      obtain ⟨s', step⟩ : ∃ s', (redraw C w).step s .view = some s' :=
        ⟨_, by simp only [redraw, redrawStep, point]; rfl⟩
      exact absurd trivial (stuck.never step)

/-- Threads at rest do not go on by themselves. -/
theorem RedrawState.AtRest.stuck (h : s.AtRest) : (redraw C w).Stuck RedrawEvent.Quiet s := by
  intro event quiet
  change redrawStep C s event = none
  cases event with
  | key | line => exact quiet.elim
  | post => simp only [redrawStep, h.key, Bool.false_eq_true, if_false]
  | store => simp only [redrawStep, h.socket]
  | view => simp only [redrawStep, h.view, h.taken, if_true]

end Rest

/-- **The screen settles on the last broadcast.** Take any order of the threads' steps
on a window of at least 45 lines and 90 columns. Without keys and lines the threads can
take `cost` steps at most, and some schedule ends. Where one ends and the face number is
in range, the cube is the lines received, decoded one after another, that of the last
broadcast if the last line was one; and the window shows the chosen face of it if its
colours have a pair, or nothing was ever posted and the window is as it was. -/
theorem screen_settles {W : Type} {C : Window W} {height width : Nat} (h : C.Lawful height width) (tall : 45 ≤ height)
    (wide : 90 ≤ width) {w : W} {s : RedrawState W} (reach : (redraw C w).Reach s) :
    (∀ later s', (∀ event ∈ later, event.Quiet) → (redraw C w).run s later = some s' → later.length ≤ s.cost) ∧
    (∃ later s', (∀ event ∈ later, event.Quiet) ∧ (redraw C w).run s later = some s' ∧
      (redraw C w).Stuck RedrawEvent.Quiet s') ∧
    ((redraw C w).Stuck RedrawEvent.Quiet s → ∀ f : FaceId, s.cubeFaceId = (f : Nat) →
      s.received.foldlM (fun c text => decode c (lineBuffer text)) makeCube = some s.cubeStateToDisplay ∧
      (∀ before c, c.Framed → s.received = before ++ [cubeLine c] → s.cubeStateToDisplay.coloring = c.coloring) ∧
      (s.posts ≠ 0 → Drawable (s.cubeStateToDisplay.faces f).colors →
        C.cell s.window = picture (s.cubeStateToDisplay.faces f).colors (C.cell w)) ∧
      (s.posts = 0 → s.window = w)) := by
  have inv := redrawInv h tall wide reach
  have lowers : ∀ s e s', (redraw C w).Reach s → e.Quiet → (redraw C w).step s e = some s' → s'.cost < s.cost :=
    fun s e s' _ => redrawStep_cost
  refine ⟨fun later s' quiet run => ?_, reach.run_stuck RedrawEvent.Quiet lowers, fun stuck f inRange => ?_⟩
  · have bound := reach.run_length (fun _ => 0) lowers quiet run
    have nothing : (later.map fun _ => 0).sum = 0 := by simp
    omega
  · have rest := (atRest_of_stuck stuck).resolve_right (by simp [inRange])
    have settled : ¬ s.Pending := by
      simp [RedrawState.Pending, rest.key, rest.socket, rest.taken, rest.view]
    have cube := inv.cube
    rw [rest.socket] at cube
    refine ⟨cube, fun before c framed last => ?_, fun posts drawable => ?_, fun none => (inv.untouched none).2.2⟩
    · rw [last, List.foldlM_append] at cube
      obtain ⟨d, -, decoded⟩ := Option.bind_eq_some_iff.1 cube
      rw [List.foldlM_cons, decode_cubeLine framed] at decoded
      have painted : d.paint c.coloring = s.cubeStateToDisplay := Option.some.inj decoded
      rw [← painted, Cube.coloring_paint]
    · obtain ⟨f', own, cells⟩ := inv.drawn settled posts rest.view
      obtain rfl : f' = f := Fin.ext (by omega)
      exact cells drawable

/-- A digit and a broadcast arrive, and all threads come to rest: the middle of the window
shows the middle of the top face. -/
theorem screen_settles_digit_and_broadcast :
    let w : Window.Grid := ⟨(0, 0), 0, fun _ _ => 0⟩
    let C := Window.grid 45 90
    let events := [.key 50, .line (cubeLine makeCube), .store, .post] ++ List.replicate 54 .store ++ List.replicate 24 .view
    ∃ s, (redraw C w).run (.start w 0) events = some s ∧ s.AtRest ∧ s.cubeFaceId = 2 ∧ s.posts = 2 ∧
      s.cubeStateToDisplay.coloring = makeCube.coloring ∧ C.cell s.window 22 44 = 3 := by
  intro w C events
  obtain ⟨s, run, rest, face, posts, received⟩ : ∃ s, (redraw C w).run (.start w 0) events = some s ∧ s.AtRest ∧
      s.cubeFaceId = 2 ∧ s.posts = 2 ∧ s.received = [] ++ [cubeLine makeCube] :=
    ⟨_, rfl, ⟨rfl, rfl, rfl, rfl⟩, rfl, rfl, rfl⟩
  have start : (redraw C w).Reach (.start w 0) := .init ⟨0, rfl⟩
  have reach := start.run run
  obtain ⟨-, last, drawn, -⟩ :=
    (screen_settles (Window.grid_lawful 45 90) le_rfl le_rfl reach).2.2 rest.stuck 2 face
  have same := last [] makeCube reachable_makeCube.digitColors.framed received
  have colors : ∀ square, (s.cubeStateToDisplay.faces 2).colors square = 2 := fun square => congrFun same (2, square)
  refine ⟨s, run, rest, face, posts, same, ?_⟩
  rw [drawn (by omega) fun square => by rw [colors]; decide]
  exact congrArg (· + 1) (colors _)

end Rubiks

import Rubiks.Client.Input
import Rubiks.Logic.Transition

/-!
# How a client program ends (`run_client.c`)

`main` connects and calls `run_cube` until that returns -1, which it never does: it
returns 0 once the key thread has met `q` and the socket thread has met end of file.
The socket thread has closed the descriptor by then, so the threads of a second call
cannot open it and `error_and_exit` ends the program.
-/

namespace Rubiks

open Logic

/-- Where a thread of `run_cube` is. -/
inductive ClientThread where
  | absent
  /-- Before its `fdopen`. -/
  | opening
  /-- In its loop, in `getch` or `getline`. -/
  | running
  | returned
  deriving DecidableEq

/-- Where the main thread of a client is. -/
inductive ClientMain where
  | connecting
  /-- In `run_cube`, before the `k`-th `pthread_create`. -/
  | creating (k : Fin 3)
  | joiningCurses
  | joiningSocket
  | exited (status : Int)
  /-- `main` has returned. -/
  | returned
  deriving DecidableEq

/-- The process is gone. -/
def ClientMain.Gone : ClientMain → Prop
  | .exited _ | .returned => True
  | _ => False

instance : (main : ClientMain) → Decidable main.Gone
  | .exited _ | .returned => isTrue trivial
  | .connecting | .creating _ | .joiningCurses | .joiningSocket => isFalse id

structure ClientProgram where
  main : ClientMain
  /-- The calls of `run_cube` so far. -/
  rounds : Nat
  /-- `socket_descriptor` is open. -/
  descriptorOpen : Bool
  /-- `listen_to_socket_and_signal_semaphore_to_view` of the last call. -/
  socket : ClientThread
  /-- `listen_to_curses_and_send_message_to_socket` of the last call. -/
  curses : ClientThread

def exitFailure : Int := 1

namespace ClientProgram

/-- `main` before `try_connect`. -/
def start : ClientProgram where
  main := .connecting
  rounds := 0
  descriptorOpen := true
  socket := .absent
  curses := .absent

def errorAndExit (P : ClientProgram) : ClientProgram := { P with main := .exited exitFailure }

/-- A call of `run_cube`. -/
def runCube (P : ClientProgram) : ClientProgram :=
  { P with main := .creating 0, rounds := P.rounds + 1, socket := .absent, curses := .absent }

/-- The loop of `main` and what follows it, after `run_cube` has returned. -/
def runCubeReturns (P : ClientProgram) (socketFileStatus : Int) : ClientProgram :=
  if socketFileStatus ≠ -1 then P.runCube
  else if P.descriptorOpen then { P with main := .returned, descriptorOpen := false }
  else P.errorAndExit

/-- After the `k`-th `pthread_create`. The first thread, which draws, is in `Redraw`. -/
def created (P : ClientProgram) : Fin 3 → ClientProgram
  | 0 => { P with main := .creating 1 }
  | 1 => { P with main := .creating 2, socket := .opening }
  | 2 => { P with main := .joiningCurses, curses := .opening }

end ClientProgram

/-- What a client program may do next. `ok` says that the calls it makes do not fail. -/
inductive ClientProgramEvent where
  /-- `try_connect`. -/
  | connect (ok : Bool)
  /-- The next `pthread_create`, or what `run_cube` does before it. -/
  | create (ok : Bool)
  | openSocket (ok : Bool)
  | openCurses (ok : Bool)
  /-- `getch` returns. -/
  | key (input : Int)
  /-- `getline` returns a line. -/
  | line
  /-- `getline` returns -1, and `fclose` follows. -/
  | eof (ok : Bool)
  /-- `pthread_join` returns. -/
  | join (ok : Bool)

/-- Keys and lines may come as often as they like. -/
def ClientProgramEvent.Input : ClientProgramEvent → Prop
  | .key _ | .line => True
  | _ => False

/-- One step of a client program; `ended` says that its connection is at end of file. -/
def ClientProgram.step (ended : Bool) (P : ClientProgram) (event : ClientProgramEvent) : Option ClientProgram :=
  if P.main.Gone then none else
  match event with
  | .connect ok =>
    match P.main with
    | .connecting => some (if ok then P.runCube else P.errorAndExit)
    | _ => none
  | .create ok =>
    match P.main with
    | .creating k => some (if ok then P.created k else P.errorAndExit)
    | _ => none
  | .openSocket ok =>
    if P.socket = .opening then
      some (if ok ∧ P.descriptorOpen then { P with socket := .running } else P.errorAndExit)
    else none
  | .openCurses ok =>
    if P.curses = .opening then
      some (if ok ∧ P.descriptorOpen then { P with curses := .running } else P.errorAndExit)
    else none
  | .key input =>
    if P.curses = .running then
      some (if input = keyQ ∨ input = keyUpperQ then { P with curses := .returned } else P)
    else none
  | .line => if P.socket = .running then some P else none
  | .eof ok =>
    if P.socket = .running ∧ ended then
      some (if ok then { P with socket := .returned, descriptorOpen := false } else P.errorAndExit)
    else none
  | .join ok =>
    match P.main with
    | .joiningCurses =>
      if P.curses = .returned then some (if ok then { P with main := .joiningSocket } else P.errorAndExit) else none
    | .joiningSocket =>
      if P.socket = .returned then some (if ok then P.runCubeReturns 0 else P.errorAndExit) else none
    | _ => none

namespace ClientProgram

variable {P P' : ClientProgram} {ended : Bool}

/-- What a step can do. -/
inductive After (P : ClientProgram) (ended : Bool) (event : ClientProgramEvent) : ClientProgram → Prop where
  | failed : After P ended event P.errorAndExit
  | connected : P.main = .connecting → After P ended event P.runCube
  | created {k : Fin 3} : P.main = .creating k → After P ended event (P.created k)
  | socketOpened : P.socket = .opening → P.descriptorOpen = true → After P ended event { P with socket := .running }
  | cursesOpened : P.curses = .opening → P.descriptorOpen = true → After P ended event { P with curses := .running }
  | quit : P.curses = .running → After P ended event { P with curses := .returned }
  | looped : event.Input → After P ended event P
  | socketEnded : P.socket = .running → ended = true →
      After P ended event { P with socket := .returned, descriptorOpen := false }
  | cursesJoined : P.main = .joiningCurses → P.curses = .returned → After P ended event { P with main := .joiningSocket }
  | socketJoined : P.main = .joiningSocket → P.socket = .returned → After P ended event (P.runCubeReturns 0)

theorem step_cases {event : ClientProgramEvent} (h : P.step ended event = some P') :
    ¬ P.main.Gone ∧ P.After ended event P' := by
  unfold step at h
  split at h
  · cases h
  · rename_i alive
    refine ⟨alive, ?_⟩
    cases event with
    | connect ok =>
      simp only at h
      split at h
      · rename_i main
        cases ok <;> cases h
        · exact .failed
        · exact .connected main
      · cases h
    | create ok =>
      simp only at h
      split at h
      · rename_i k main
        cases ok <;> cases h
        · exact .failed
        · exact .created main
      · cases h
    | openSocket ok =>
      simp only [Option.ite_none_right_eq_some] at h
      obtain ⟨opening, h⟩ := h
      split at h <;> cases h
      · rename_i opens
        exact .socketOpened opening opens.2
      · exact .failed
    | openCurses ok =>
      simp only [Option.ite_none_right_eq_some] at h
      obtain ⟨opening, h⟩ := h
      split at h <;> cases h
      · rename_i opens
        exact .cursesOpened opening opens.2
      · exact .failed
    | key input =>
      simp only [Option.ite_none_right_eq_some] at h
      obtain ⟨running, h⟩ := h
      split at h <;> cases h
      · exact .quit running
      · exact .looped trivial
    | line =>
      simp only [Option.ite_none_right_eq_some] at h
      obtain ⟨running, h⟩ := h
      cases h
      exact .looped trivial
    | eof ok =>
      simp only [Option.ite_none_right_eq_some] at h
      obtain ⟨⟨running, eof⟩, h⟩ := h
      cases ok <;> cases h
      · exact .failed
      · exact .socketEnded running eof
    | join ok =>
      simp only at h
      split at h
      · rename_i main
        rw [Option.ite_none_right_eq_some] at h
        obtain ⟨returned, h⟩ := h
        cases ok <;> cases h
        · exact .failed
        · exact .cursesJoined main returned
      · rename_i main
        rw [Option.ite_none_right_eq_some] at h
        obtain ⟨returned, h⟩ := h
        cases ok <;> cases h
        · exact .failed
        · exact .socketJoined main returned
      · cases h

/-- What holds of a client program between its steps. -/
structure Inv (P : ClientProgram) : Prop where
  rounds : P.rounds ≤ 2
  connecting : P.main = .connecting → P.rounds = 0 ∧ P.socket = .absent ∧ P.curses = .absent
  called : P.rounds = 0 → P.main = .connecting ∨ P.main.Gone
  notReturned : P.main ≠ .returned
  failed : ∀ status, P.main = .exited status → status = exitFailure
  opened : P.rounds ≤ 1 → P.socket ≠ .returned → P.descriptorOpen = true
  closed : P.rounds = 2 ∨ P.socket = .returned → P.descriptorOpen = false
  second : P.rounds = 2 → (P.socket = .absent ∨ P.socket = .opening) ∧ (P.curses = .absent ∨ P.curses = .opening)
  joiningCurses : P.main = .joiningCurses → P.socket ≠ .absent ∧ P.curses ≠ .absent
  joiningSocket : P.main = .joiningSocket → P.socket ≠ .absent ∧ P.curses = .returned
  creating : ∀ k, P.main = .creating k → P.curses = .absent ∧ (P.socket = .absent ↔ k.val < 2)

theorem Inv.start : start.Inv where
  rounds := Nat.zero_le _
  connecting _ := ⟨rfl, rfl, rfl⟩
  called _ := .inl rfl
  notReturned := nofun
  failed := nofun
  opened _ _ := rfl
  closed := nofun
  second := nofun
  joiningCurses := nofun
  joiningSocket := nofun
  creating := nofun

theorem Inv.errorAndExit (h : P.Inv) : P.errorAndExit.Inv where
  rounds := h.rounds
  connecting := nofun
  called _ := .inr trivial
  notReturned := nofun
  failed _ same := (ClientMain.exited.inj same).symm
  opened := h.opened
  closed := h.closed
  second := h.second
  joiningCurses := nofun
  joiningSocket := nofun
  creating := nofun

/-- A call of `run_cube`: the first, with the descriptor open, or the second, with the
descriptor closed. -/
theorem Inv.runCube (few : P.rounds ≤ 1) (open_iff : P.descriptorOpen = decide (P.rounds = 0)) : P.runCube.Inv where
  rounds := Nat.succ_le_succ few
  connecting := nofun
  called := nofun
  notReturned := nofun
  failed := nofun
  opened few' _ := by
    have first : P.rounds = 0 := Nat.le_zero.1 (Nat.le_of_succ_le_succ few')
    rw [ClientProgram.runCube, open_iff, decide_eq_true first]
  closed again := by
    have second : P.rounds = 1 := again.elim Nat.succ.inj nofun
    rw [ClientProgram.runCube, open_iff, second]
    rfl
  second _ := ⟨.inl rfl, .inl rfl⟩
  joiningCurses := nofun
  joiningSocket := nofun
  creating k same := by
    obtain rfl := ClientMain.creating.inj same
    exact ⟨rfl, iff_of_true rfl (by decide)⟩

/-- No thread of a second call gets past its `fdopen`. -/
theorem Inv.first_of_running (h : P.Inv) (running : P.socket = .running ∨ P.socket = .returned ∨ P.curses = .running ∨
    P.curses = .returned) : P.rounds ≤ 1 := by
  by_contra many
  have second : P.rounds = 2 := by
    have := h.rounds
    omega
  obtain ⟨socket, curses⟩ := h.second second
  rcases socket with socket | socket <;> rcases curses with curses | curses <;> simp [socket, curses] at running

theorem Inv.rounds_ne_zero (h : P.Inv) (alive : ¬ P.main.Gone) (connected : P.main ≠ .connecting) : P.rounds ≠ 0 :=
  fun none => (h.called none).elim connected alive

/-- One step keeps the invariant. -/
theorem Inv.after (h : P.Inv) {event : ClientProgramEvent} (after : P.After ended event P') (alive : ¬ P.main.Gone) : P'.Inv := by
  cases after with
  | failed => exact h.errorAndExit
  | connected main =>
    obtain ⟨rounds, socket, -⟩ := h.connecting main
    have opened := h.opened (by omega) (by rw [socket]; nofun)
    exact .runCube (by omega) (by rw [opened, rounds]; rfl)
  | @created k main =>
    obtain ⟨curses, socket⟩ := h.creating k main
    have notZero := h.rounds_ne_zero alive (by rw [main]; nofun)
    have called : P.rounds = 0 → ∀ main : ClientMain, main = .connecting ∨ main.Gone := fun none => absurd none notZero
    match k with
    | 0 =>
      have absent := socket.2 (by decide)
      refine ⟨h.rounds, nofun, fun none => called none _, nofun, nofun, h.opened, h.closed, h.second, nofun, nofun, ?_⟩
      rintro _ ⟨⟩
      exact ⟨curses, iff_of_true absent (by decide)⟩
    | 1 =>
      have absent := socket.2 (by decide)
      refine ⟨h.rounds, nofun, fun none => called none _, nofun, nofun, fun few _ => h.opened few ?_, ?_, ?_, nofun, nofun, ?_⟩
      · rw [absent]
        nofun
      · exact fun closed => h.closed (.inl (closed.resolve_right nofun))
      · exact fun second => ⟨.inr rfl, (h.second second).2⟩
      · rintro _ ⟨⟩
        exact ⟨curses, iff_of_false nofun (by decide)⟩
    | 2 =>
      have present : P.socket ≠ .absent := fun absent => absurd (socket.1 absent) (by decide)
      exact ⟨h.rounds, nofun, fun none => called none _, nofun, nofun, h.opened, h.closed,
        fun second => ⟨(h.second second).1, .inr rfl⟩, fun _ => ⟨present, nofun⟩, nofun, nofun⟩
  | socketOpened opening opened =>
    have notSecond : P.rounds ≠ 2 := fun second => by
      rw [h.closed (.inl second)] at opened
      cases opened
    have present : P.socket ≠ .absent := by rw [opening]; nofun
    refine { h with
      connecting := ?_
      opened := fun _ _ => opened
      closed := ?_
      second := fun second => absurd second notSecond
      joiningCurses := ?_
      joiningSocket := ?_
      creating := ?_ }
    · exact fun main => absurd (h.connecting main).2.1 present
    · exact fun closed => absurd (closed.resolve_right nofun) notSecond
    · exact fun main => ⟨nofun, (h.joiningCurses main).2⟩
    · exact fun main => ⟨nofun, (h.joiningSocket main).2⟩
    · intro k main
      obtain ⟨curses, socket⟩ := h.creating k main
      exact ⟨curses, iff_of_false nofun fun early => present (socket.2 early)⟩
  | cursesOpened opening opened =>
    have notSecond : P.rounds ≠ 2 := fun second => by
      rw [h.closed (.inl second)] at opened
      cases opened
    refine { h with
      connecting := ?_
      second := fun second => absurd second notSecond
      joiningCurses := ?_
      joiningSocket := ?_
      creating := ?_ }
    · intro main
      rw [(h.connecting main).2.2] at opening
      cases opening
    · exact fun main => ⟨(h.joiningCurses main).1, nofun⟩
    · intro main
      rw [(h.joiningSocket main).2] at opening
      cases opening
    · intro k main
      rw [(h.creating k main).1] at opening
      cases opening
  | quit running =>
    have few := h.first_of_running (.inr (.inr (.inl running)))
    have notSecond : P.rounds ≠ 2 := by omega
    refine { h with
      connecting := ?_
      second := fun second => absurd second notSecond
      joiningCurses := ?_
      joiningSocket := ?_
      creating := ?_ }
    · intro main
      rw [(h.connecting main).2.2] at running
      cases running
    · exact fun main => ⟨(h.joiningCurses main).1, nofun⟩
    · exact fun main => ⟨(h.joiningSocket main).1, rfl⟩
    · intro k main
      rw [(h.creating k main).1] at running
      cases running
  | looped input => exact h
  | socketEnded running eof =>
    have few := h.first_of_running (.inl running)
    have notSecond : P.rounds ≠ 2 := by omega
    have present : P.socket ≠ .absent := by rw [running]; nofun
    refine { h with
      connecting := ?_
      opened := fun _ ended => absurd rfl ended
      closed := fun _ => rfl
      second := fun second => absurd second notSecond
      joiningCurses := ?_
      joiningSocket := ?_
      creating := ?_ }
    · exact fun main => absurd (h.connecting main).2.1 present
    · exact fun main => ⟨nofun, (h.joiningCurses main).2⟩
    · exact fun main => ⟨nofun, (h.joiningSocket main).2⟩
    · intro k main
      obtain ⟨curses, socket⟩ := h.creating k main
      exact ⟨curses, iff_of_false nofun fun early => present (socket.2 early)⟩
  | cursesJoined main returned =>
    have notZero := h.rounds_ne_zero alive (by rw [main]; nofun)
    exact { h with
      connecting := nofun
      called := fun none => absurd none notZero
      notReturned := nofun
      failed := nofun
      joiningCurses := nofun
      joiningSocket := fun _ => ⟨(h.joiningCurses main).1, returned⟩
      creating := nofun }
  | socketJoined main returned =>
    have few := h.first_of_running (.inr (.inl returned))
    have notZero := h.rounds_ne_zero alive (by rw [main]; nofun)
    have again : P.runCubeReturns 0 = P.runCube := if_pos (by decide)
    rw [again]
    exact .runCube few (by rw [h.closed (.inr returned), decide_eq_false notZero])

end ClientProgram

/-! ## Where it waits -/

def ClientMain.cost : ClientMain → Nat
  | .connecting => 1
  | .creating 0 => 9
  | .creating 1 => 8
  | .creating 2 => 5
  | .joiningCurses => 2
  | .joiningSocket => 1
  | .exited _ | .returned => 0

def ClientThread.cost : ClientThread → Nat
  | .opening => 2
  | .running => 1
  | .absent | .returned => 0

namespace ClientProgram

variable {P P' : ClientProgram} {ended : Bool}

/-- Steps until the program waits for its user or its connection, or is gone. -/
def cost (P : ClientProgram) : Nat := 16 * (2 - P.rounds) + P.main.cost + P.socket.cost + P.curses.cost

theorem cost_pos_of_alive {main : ClientMain} (alive : ¬ main.Gone) : 0 < main.cost := by
  cases main with
  | creating k => match k with | 0 | 1 | 2 => decide
  | exited status => exact absurd trivial alive
  | returned => exact absurd trivial alive
  | connecting | joiningCurses | joiningSocket => decide

/-- Every step but a loop of a thread lowers the cost. -/
theorem Inv.step_cost (h : P.Inv) {event : ClientProgramEvent} (noInput : ¬ event.Input)
    (step : P.step ended event = some P') : P'.cost < P.cost := by
  obtain ⟨alive, after⟩ := step_cases step
  cases after with
  | looped input => exact absurd input noInput
  | failed =>
    have := cost_pos_of_alive alive
    show 16 * (2 - P.rounds) + 0 + P.socket.cost + P.curses.cost < P.cost
    simp only [cost]
    omega
  | connected main =>
    obtain ⟨rounds, -, -⟩ := h.connecting main
    show 16 * (2 - (P.rounds + 1)) + 9 + 0 + 0 < P.cost
    simp only [cost]
    omega
  | @created k main =>
    obtain ⟨curses, socket⟩ := h.creating k main
    match k with
    | 0 => simp only [cost, created, main, ClientMain.cost]; omega
    | 1 => simp only [cost, created, main, ClientMain.cost, socket.2 (by decide), ClientThread.cost]; omega
    | 2 => simp only [cost, created, main, ClientMain.cost, curses, ClientThread.cost]; omega
  | socketOpened opening opened =>
    simp only [cost, opening, ClientThread.cost]
    omega
  | cursesOpened opening opened =>
    simp only [cost, opening, ClientThread.cost]
    omega
  | quit running =>
    simp only [cost, running, ClientThread.cost]
    omega
  | socketEnded running eof =>
    simp only [cost, running, ClientThread.cost]
    omega
  | cursesJoined main returned =>
    simp only [cost, main, ClientMain.cost]
    omega
  | socketJoined main returned =>
    have few := h.first_of_running (.inr (.inl returned))
    have notZero := h.rounds_ne_zero alive (by rw [main]; nofun)
    show 16 * (2 - (P.rounds + 1)) + 9 + 0 + 0 < P.cost
    simp only [cost]
    omega

theorem cost_le (P : ClientProgram) : P.cost ≤ 45 := by
  have main : P.main.cost ≤ 9 := by
    cases P.main with
    | creating k => match k with | 0 | 1 | 2 => decide
    | connecting | joiningCurses | joiningSocket | exited | returned => simp [ClientMain.cost]
  have thread : ∀ thread : ClientThread, thread.cost ≤ 2 := by
    intro thread
    cases thread <;> decide
  have socket := thread P.socket
  have curses := thread P.curses
  unfold cost
  omega

/-- In a first call whose connection stays open the socket thread does not return. -/
theorem After.first_call {event : ClientProgramEvent} (after : P.After false event P')
    (first : P.rounds ≤ 1 ∧ P.socket ≠ .returned) (h : P.Inv) : P'.rounds ≤ 1 ∧ P'.socket ≠ .returned := by
  cases after with
  | connected main =>
    refine ⟨?_, nofun⟩
    show P.rounds + 1 ≤ 1
    rw [(h.connecting main).1]
  | @created k main =>
    match k with
    | 0 => exact first
    | 1 => exact ⟨first.1, nofun⟩
    | 2 => exact first
  | socketOpened opening opened => exact ⟨first.1, nofun⟩
  | socketEnded running eof => cases eof
  | socketJoined main returned => exact absurd returned first.2
  | failed | cursesOpened | quit | looped | cursesJoined => exact first

/-- The main thread and the two others, where only a key, a line or the end of the
connection can move them. -/
inductive Waits (ended : Bool) (P : ClientProgram) : Prop where
  | gone : P.main = .exited exitFailure → Waits ended P
  /-- In `getch`; the socket thread is in `getline` or has returned. -/
  | forKey : P.main = .joiningCurses → P.curses = .running →
      P.socket = .returned ∨ P.socket = .running ∧ ended = false → Waits ended P
  /-- After `q`, as long as the server keeps the connection. -/
  | forEof : P.main = .joiningSocket → P.curses = .returned → P.socket = .running → ended = false → Waits ended P

theorem Inv.waits (h : P.Inv) (stuck : ∀ event, ¬ event.Input → P.step ended event = none) : P.Waits ended := by
  by_cases gone : P.main.Gone
  · cases main : P.main with
    | exited status => exact .gone (by rw [main, h.failed status main])
    | returned => exact absurd main h.notReturned
    | _ => simp [main, ClientMain.Gone] at gone
  have notOpening : P.socket ≠ .opening ∧ P.curses ≠ .opening := by
    have socket := stuck (.openSocket true) id
    have curses := stuck (.openCurses true) id
    rw [step, if_neg gone] at socket
    rw [step, if_neg gone] at curses
    constructor
    · intro opening
      simp [opening] at socket
    · intro opening
      simp [opening] at curses
  have open_ : P.socket = .running → ended = false := by
    intro running
    have eof := stuck (.eof true) id
    rw [step, if_neg gone] at eof
    simpa [running] using eof
  have join := stuck (.join true) id
  have create := stuck (.create true) id
  have connect := stuck (.connect true) id
  rw [step, if_neg gone] at join
  rw [step, if_neg gone] at create
  rw [step, if_neg gone] at connect
  cases main : P.main with
  | connecting => simp [main] at connect
  | creating k => simp [main] at create
  | exited status => simp [main, ClientMain.Gone] at gone
  | returned => exact absurd main h.notReturned
  | joiningCurses =>
    obtain ⟨socket, curses⟩ := h.joiningCurses main
    simp only [main] at join
    refine .forKey main ?_ ?_
    · cases point : P.curses with
      | running => rfl
      | absent => exact absurd point curses
      | opening => exact absurd point notOpening.2
      | returned => simp [point] at join
    · cases point : P.socket with
      | running => exact .inr ⟨rfl, open_ point⟩
      | returned => exact .inl rfl
      | absent => exact absurd point socket
      | opening => exact absurd point notOpening.1
  | joiningSocket =>
    obtain ⟨socket, curses⟩ := h.joiningSocket main
    have running : P.socket = .running := by
      cases point : P.socket with
      | running => rfl
      | absent => exact absurd point socket
      | opening => exact absurd point notOpening.1
      | returned => simp [main, point] at join
    exact .forEof main curses running (open_ running)

end ClientProgram

end Rubiks

import Rubiks.Server.Broadcast

/-!
# The server's threads (`rubiks_server.c`)

Any number of listener threads and the broadcaster share one cube, one mutex and
one semaphore. Taking the mutex, each store of a face, the unlock, `sem_post`,
`sem_wait`, each face `encode` reads and each send is a step of its own. Under the
mutex the stores of a command and the reads of a message act as one: the threads
simulate the critical sections of `broadcasts` (`threads_simulate`). A send never
blocks here; `Rubiks.Server.Progress` adds pipes that can be full.
-/

namespace Rubiks

open Logic

/-- Successive stores of whole faces. -/
def storeFaces (c : Cube) (stores : List (FaceId × Face)) : Cube :=
  stores.foldl (fun c w => c.setFace w.1 w.2) c

theorem faces_storeFaces (c : Cube) (stores : List (FaceId × Face)) :
    (storeFaces c stores).faces = overwrite c.faces stores := by
  induction stores generalizing c with
  | nil => rfl
  | cons w stores ih => exact ih (c.setFace w.1 w.2)

/-- The stores of `copy_cube`. -/
def copyStores (originalCube : Cube) : List (FaceId × Face) :=
  (List.finRange 6).map fun i => (i, originalCube.faces i)

theorem storeFaces_copyStores (c d : Cube) : storeFaces c (copyStores d) = d := by
  apply Cube.ext
  rw [faces_storeFaces, copyStores, overwrite_cells List.mem_finRange]

/-- What `decode_user_input` will store and then turn: the six new faces of the
reset, the turns of a shuffle, or one turn. -/
def decodePlan (command : Command) (globalCubeState : Cube) (draws : Draws) : List (FaceId × Face) × List Move :=
  if command.code = 2 then
    if isSolved globalCubeState ≠ 0 then ([], draws.moves (defaultRange.depth draws))
    else (copyStores makeCube, [])
  else ([], [⟨command.face, (command.code : Nat)⟩])

/-- The cube once the stores and the turns are done. -/
def finishPlan (c : Cube) (plan : List (FaceId × Face) × List Move) : Option Cube :=
  runMoves (storeFaces c plan.1) plan.2

theorem finishPlan_decodePlan (command : Command) (c : Cube) (draws : Draws) :
    finishPlan c (decodePlan command c draws) = decodeUserInput command.line c draws := by
  rw [decodeUserInput_line, decodePlan]
  by_cases code : command.code = 2
  · rw [if_pos code, if_pos code]
    by_cases solved : isSolved c ≠ 0
    · rw [if_pos solved, if_pos solved]
      exact (shuffle_eq c defaultRange draws).symm
    · rw [if_neg solved, if_neg solved, resetFaces_eq, finishPlan, storeFaces_copyStores, runMoves_nil]
  · simp [if_neg code, finishPlan, storeFaces, runMoves]

/-- Where a listener thread is between two lines. -/
inductive ListenerPoint where
  /-- In `getline`. -/
  | outside
  /-- In `pthread_mutex_lock`. -/
  | locking (command : Command)
  /-- Holds the mutex; its call of `shuffle` would meet `draws`. -/
  | decoding (command : Command) (draws : Draws)
  /-- Holds the mutex; faces still to store, then turns still to make. -/
  | storing (stores : List (FaceId × Face)) (moves : List Move)
  /-- The mutex is free again, `sem_post` is next. -/
  | posting

/-- Where the broadcaster thread is in its loop. -/
inductive BroadcasterPoint where
  | waiting
  | locking
  /-- Holds the mutex; the faces `encode` has not read yet. -/
  | encoding (msg : Fin 56 → Char8) (faces : List FaceId)
  | sending (message : Snapshot) (rest : List FaceId)

/-- Who holds `global_cube_state_lock`. -/
inductive Owner (ι : Type) where
  | listener (i : ι)
  | broadcaster

/-- The threads and what they share. `locked` records the commands in the order
their listeners took the mutex. -/
structure ThreadState (ι : Type) where
  globalCubeState : Cube
  globalCubeStateLock : Option (Owner ι)
  broadcastMessageReady : Nat
  /-- The commands each listener has yet to read. -/
  lines : ι → List Command
  listener : ι → ListenerPoint
  broadcaster : BroadcasterPoint
  locked : List (Entry ι)
  produced : List Snapshot
  sent : FaceId → List Snapshot

variable {ι : Type}

def ThreadState.start (lines : ι → List Command) : ThreadState ι where
  globalCubeState := makeCube
  globalCubeStateLock := none
  broadcastMessageReady := 0
  lines := lines
  listener := fun _ => .outside
  broadcaster := .waiting
  locked := []
  produced := []
  sent := fun _ => []

inductive ThreadEvent (ι : Type) where
  /-- The next step of listener `i`; `draws` matters when it takes the mutex. -/
  | listener (i : ι) (draws : Draws)
  /-- The broadcaster's next step; `buffer` is what `msg` held before `encode`. -/
  | broadcaster (buffer : Fin 56 → Char8)

variable [DecidableEq ι]

/-- `server_thread_listen_to_pipe` and `interpret_command`. -/
def listenerStep (s : ThreadState ι) (i : ι) (draws : Draws) : Option (ThreadState ι) :=
  match s.listener i with
  | .outside =>
    match s.lines i with
    | [] => none
    | command :: lines => some { s with
        lines := Function.update s.lines i lines
        listener := Function.update s.listener i (.locking command) }
  | .locking command =>
    if s.globalCubeStateLock.isSome then none
    else some { s with
      globalCubeStateLock := some (.listener i)
      listener := Function.update s.listener i (.decoding command draws)
      locked := s.locked ++ [⟨i, command, draws⟩] }
  | .decoding command draws =>
    let (stores, moves) := decodePlan command s.globalCubeState draws
    some { s with listener := Function.update s.listener i (.storing stores moves) }
  | .storing ((f, face) :: stores) moves =>
    some { s with
      globalCubeState := s.globalCubeState.setFace f face
      listener := Function.update s.listener i (.storing stores moves) }
  | .storing [] (m :: moves) => do
    let cubeCopy ← rotate s.globalCubeState (m.face : Nat) m.direction
    some { s with listener := Function.update s.listener i (.storing (copyStores cubeCopy) moves) }
  | .storing [] [] =>
    some { s with
      globalCubeStateLock := none
      listener := Function.update s.listener i .posting }
  | .posting =>
    some { s with
      broadcastMessageReady := s.broadcastMessageReady + 1
      listener := Function.update s.listener i .outside }

/-- `server_thread_wait_and_broadcast`. -/
def broadcasterStep (s : ThreadState ι) (buffer : Fin 56 → Char8) : Option (ThreadState ι) :=
  match s.broadcaster with
  | .waiting =>
    if s.broadcastMessageReady = 0 then none
    else some { s with
      broadcastMessageReady := s.broadcastMessageReady - 1
      broadcaster := .locking }
  | .locking =>
    if s.globalCubeStateLock.isSome then none
    else some { s with
      globalCubeStateLock := some .broadcaster
      broadcaster := .encoding buffer (List.finRange 6) }
  | .encoding msg (i :: faces) =>
    some { s with broadcaster := .encoding (encodeFace s.globalCubeState msg i) faces }
  | .encoding msg [] =>
    let message : Snapshot := ⟨encodeEnd msg, s.locked.length⟩
    some { s with
      globalCubeStateLock := none
      broadcaster := .sending message (List.finRange 6)
      produced := s.produced ++ [message] }
  | .sending message (k :: rest) =>
    some { s with
      broadcaster := .sending message rest
      sent := Function.update s.sent k (s.sent k ++ [message]) }
  | .sending _ [] => some { s with broadcaster := .waiting }

/-- The threads on the given commands, in any interleaving. -/
def threads (lines : ι → List Command) : System (ThreadState ι) (ThreadEvent ι) where
  init s := s = .start lines
  step s
    | .listener i draws => listenerStep s i draws
    | .broadcaster buffer => broadcasterStep s buffer

/-! ## The threads simulate the critical sections -/

/-- The listener holds the mutex. -/
def ListenerPoint.Inside : ListenerPoint → Prop
  | .decoding _ _ | .storing _ _ => True
  | _ => False

/-- The broadcaster holds the mutex. -/
def BroadcasterPoint.Inside : BroadcasterPoint → Prop
  | .encoding _ _ => True
  | _ => False

/-- The cube a listener inside its critical section will leave. -/
def ListenerPoint.finish (c : Cube) : ListenerPoint → Option Cube
  | .decoding command draws => decodeUserInput command.line c draws
  | .storing stores moves => finishPlan c (stores, moves)
  | _ => some c

/-- The broadcaster's point with its critical section not split. -/
def BroadcasterPoint.abstract : BroadcasterPoint → Broadcaster
  | .waiting => .waiting
  | .locking | .encoding _ _ => .woken
  | .sending message rest => .sending message rest

/-- The threads and the server they amount to. A listener inside its critical
section has its command at the end of `locked` but not applied in `a` yet. -/
structure Simulates (s : ThreadState ι) (a : ServerState ι) : Prop where
  ready : a.broadcastMessageReady = s.broadcastMessageReady
  posting : ∀ i, i ∈ a.posting ↔ s.listener i = .posting
  broadcaster : a.broadcaster = s.broadcaster.abstract
  produced : a.produced = s.produced
  sent : a.sent = s.sent
  owner : ∀ i, (s.listener i).Inside ↔ s.globalCubeStateLock = some (.listener i)
  reader : s.broadcaster.Inside ↔ s.globalCubeStateLock = some .broadcaster
  idle : (∀ i, s.globalCubeStateLock ≠ some (.listener i)) →
    a.globalCubeState = s.globalCubeState ∧ a.history = s.locked
  busy : ∀ i, s.globalCubeStateLock = some (.listener i) → ∃ e : Entry ι, e.client = i ∧
    s.locked = a.history ++ [e] ∧ ∃ c, decodeUserInput e.command.line a.globalCubeState e.draws = some c ∧
      (s.listener i).finish s.globalCubeState = some c
  reading : ∀ msg faces, s.broadcaster = .encoding msg faces →
    encodeEnd (faces.foldl (encodeFace s.globalCubeState) msg) = encodedChar s.globalCubeState

namespace Simulates

variable {s : ThreadState ι} {a : ServerState ι}

omit [DecidableEq ι] in
theorem start (lines : ι → List Command) : Simulates (.start lines) (.start : ServerState ι) where
  ready := rfl
  posting i := by simp [ThreadState.start, ServerState.start]
  broadcaster := rfl
  produced := rfl
  sent := rfl
  owner i := by simp [ThreadState.start, ListenerPoint.Inside]
  reader := by simp [ThreadState.start, BroadcasterPoint.Inside]
  idle _ := ⟨rfl, rfl⟩
  busy i locked := by simp [ThreadState.start] at locked
  reading msg faces encoding := by simp [ThreadState.start] at encoding

/-- A listener's step that takes and frees nothing, as long as it changes the cube
only inside its critical section and then keeps what it will leave. -/
theorem move (h : Simulates s a) {i : ι} {p : ListenerPoint} {cube : Cube} {lines : ι → List Command}
    (inside : p.Inside ↔ (s.listener i).Inside) (posting : p = .posting ↔ s.listener i = .posting)
    (finish : ∀ c, (s.listener i).Inside → (s.listener i).finish s.globalCubeState = some c → p.finish cube = some c)
    (kept : ¬ (s.listener i).Inside → cube = s.globalCubeState) :
    Simulates { s with globalCubeState := cube, lines := lines, listener := Function.update s.listener i p } a where
  ready := h.ready
  posting := (Function.forall_update_iff s.listener fun j q => j ∈ a.posting ↔ q = .posting).2
    ⟨(h.posting i).trans posting.symm, fun j _ => h.posting j⟩
  broadcaster := h.broadcaster
  produced := h.produced
  sent := h.sent
  owner := (Function.forall_update_iff s.listener fun j q =>
    q.Inside ↔ s.globalCubeStateLock = some (.listener j)).2 ⟨inside.trans (h.owner i), fun j _ => h.owner j⟩
  reader := h.reader
  idle free := by
    dsimp only
    rw [kept fun held => free i ((h.owner i).1 held)]
    exact h.idle free
  busy j locked := by
    obtain ⟨e, client, history, c, decoded, finishes⟩ := h.busy j locked
    refine ⟨e, client, history, c, decoded, ?_⟩
    dsimp only
    -- the listener that moves holds the mutex, or it cannot have changed the cube
    by_cases same : j = i
    · subst same
      rw [Function.update_self]
      exact finish c ((h.owner j).2 locked) finishes
    · have outside : ¬ (s.listener i).Inside := by
        intro held
        have both := locked.symm.trans ((h.owner i).1 held)
        exact same (Owner.listener.inj (Option.some.inj both))
      rw [Function.update_of_ne same, kept outside]
      exact finishes
  reading msg faces encoding := by
    have outside : ¬ (s.listener i).Inside := by
      intro held
      have both := (h.reader.1 (by rw [encoding]; trivial)).symm.trans ((h.owner i).1 held)
      cases both
    dsimp only
    rw [kept outside]
    exact h.reading msg faces encoding

/-- A listener takes the free mutex. -/
theorem lock (h : Simulates s a) (inv : BroadcastInv a) {i : ι} {command : Command} (draws : Draws)
    (point : s.listener i = .locking command) (free : s.globalCubeStateLock = none) :
    Simulates { s with
      globalCubeStateLock := some (.listener i)
      listener := Function.update s.listener i (.decoding command draws)
      locked := s.locked ++ [⟨i, command, draws⟩] } a where
  ready := h.ready
  posting := (Function.forall_update_iff s.listener fun j q => j ∈ a.posting ↔ q = .posting).2
    ⟨by simp [h.posting, point], fun j _ => h.posting j⟩
  broadcaster := h.broadcaster
  produced := h.produced
  sent := h.sent
  owner := by
    refine (Function.forall_update_iff s.listener fun j q =>
      q.Inside ↔ some (Owner.listener i) = some (.listener j)).2 ⟨by simp [ListenerPoint.Inside], fun j other => ?_⟩
    have outside : ¬ (s.listener j).Inside := by simp [h.owner j, free]
    simp [outside, Ne.symm other]
  reader := by
    have outside : ¬ s.broadcaster.Inside := by simp [h.reader, free]
    simp [outside]
  idle other := absurd rfl (other i)
  busy j locked := by
    obtain rfl := Owner.listener.inj (Option.some.inj locked)
    obtain ⟨cube, history⟩ := h.idle (by simp [free])
    -- `decode_user_input` is defined on a reachable cube, so the command will be applied
    obtain ⟨c, run, reach⟩ := cubeAfter_reachable a.history
    rw [inv.cube] at run
    cases run
    obtain ⟨d, decoded, -⟩ := reach.command command draws
    refine ⟨⟨i, command, draws⟩, rfl, by rw [history], d, decoded, ?_⟩
    dsimp only
    rw [Function.update_self, ← cube]
    exact decoded
  reading msg faces encoding := by
    have locked := h.reader.1 (by rw [encoding]; trivial)
    rw [free] at locked
    cases locked

/-- A listener that has made its stores and turns frees the mutex: its command is
applied. -/
theorem unlock (h : Simulates s a) {i : ι} (point : s.listener i = .storing [] []) :
    ∃ e a', serverStep a (.interpret e) = some a' ∧ Simulates { s with
      globalCubeStateLock := none
      listener := Function.update s.listener i .posting } a' := by
  have locked := (h.owner i).1 (by rw [point]; trivial)
  obtain ⟨e, rfl, history, c, decoded, finishes⟩ := h.busy i locked
  rw [point] at finishes
  obtain rfl : s.globalCubeState = c := Option.some.inj finishes
  have outside : e.client ∉ a.posting := by simp [h.posting, point]
  refine ⟨e, _, serverStep_interpret.2 ⟨outside, _, decoded, rfl⟩, ?_⟩
  exact {
    ready := h.ready
    posting := (Function.forall_update_iff s.listener fun j q => j ∈ insert e.client a.posting ↔ q = .posting).2
      ⟨by simp, fun j other => by simp [other, h.posting j]⟩
    broadcaster := h.broadcaster
    produced := h.produced
    sent := h.sent
    owner := by
      refine (Function.forall_update_iff s.listener fun j q => q.Inside ↔ none = some (Owner.listener j)).2
        ⟨by simp [ListenerPoint.Inside], fun j other => ?_⟩
      rw [h.owner j, locked]
      simp [Ne.symm other]
    reader := by
      rw [h.reader, locked]
      simp
    idle := fun _ => ⟨rfl, history.symm⟩
    busy := by simp
    reading := h.reading }

/-- `sem_post` after the unlock. -/
theorem post (h : Simulates s a) {i : ι} (point : s.listener i = .posting) :
    ∃ a', serverStep a (.post i) = some a' ∧ Simulates { s with
      broadcastMessageReady := s.broadcastMessageReady + 1
      listener := Function.update s.listener i .outside } a' := by
  have outside : ¬ (s.listener i).Inside := by simp [point, ListenerPoint.Inside]
  refine ⟨_, serverStep_post.2 ⟨(h.posting i).2 point, rfl⟩, ?_⟩
  exact {
    ready := congrArg (· + 1) h.ready
    posting := (Function.forall_update_iff s.listener fun j q => j ∈ a.posting.erase i ↔ q = .posting).2
      ⟨by simp, fun j other => by simp [other, h.posting j]⟩
    broadcaster := h.broadcaster
    produced := h.produced
    sent := h.sent
    owner := (Function.forall_update_iff s.listener fun j q =>
      q.Inside ↔ s.globalCubeStateLock = some (.listener j)).2
      ⟨iff_of_false (by simp [ListenerPoint.Inside]) fun locked => outside ((h.owner i).2 locked), fun j _ => h.owner j⟩
    reader := h.reader
    idle := h.idle
    busy := by
      intro j locked
      obtain ⟨e, client, history, c, decoded, finishes⟩ := h.busy j locked
      have other : j ≠ i := by
        rintro rfl
        exact outside ((h.owner j).2 locked)
      refine ⟨e, client, history, c, decoded, ?_⟩
      dsimp only
      rw [Function.update_of_ne other]
      exact finishes
    reading := h.reading }

/-- The next step of a listener is no step of the server or one. -/
theorem listenerStep (h : Simulates s a) (inv : BroadcastInv a) {i : ι} {draws : Draws} {s' : ThreadState ι}
    (step : listenerStep s i draws = some s') :
    Simulates s' a ∨ ∃ event a', serverStep a event = some a' ∧ Simulates s' a' := by
  cases point : s.listener i with
  | outside =>
    simp only [Rubiks.listenerStep, point] at step
    cases unread : s.lines i with
    | nil =>
      rw [unread] at step
      cases step
    | cons command lines =>
      rw [unread] at step
      cases step
      exact .inl (h.move (by simp [point, ListenerPoint.Inside]) (by simp [point])
        (fun _ held => absurd held (by simp [point, ListenerPoint.Inside])) fun _ => rfl)
  | locking command =>
    simp only [Rubiks.listenerStep, point, Option.ite_none_left_eq_some, Option.not_isSome_iff_eq_none] at step
    obtain ⟨free, taken⟩ := step
    cases taken
    exact .inl (h.lock inv draws point free)
  | decoding command draws =>
    simp only [Rubiks.listenerStep, point] at step
    cases step
    refine .inl (h.move (by simp [point, ListenerPoint.Inside]) (by simp [point]) (fun c _ finishes => ?_) fun _ => rfl)
    rw [point] at finishes
    exact (finishPlan_decodePlan command s.globalCubeState draws).trans finishes
  | storing stores moves =>
    have inside : ∀ stores' moves', (ListenerPoint.storing stores' moves').Inside ↔ (s.listener i).Inside := by
      simp [point, ListenerPoint.Inside]
    have posting : ∀ stores' moves', ListenerPoint.storing stores' moves' = .posting ↔ s.listener i = .posting := by
      simp [point]
    cases stores with
    | cons w stores =>
      simp only [Rubiks.listenerStep, point] at step
      cases step
      refine .inl (h.move (inside _ _) (posting _ _) (fun c _ finishes => ?_) fun outside =>
        absurd ((inside stores moves).1 trivial) outside)
      rw [point] at finishes
      exact finishes
    | nil =>
      cases moves with
      | nil =>
        simp only [Rubiks.listenerStep, point] at step
        cases step
        obtain ⟨e, a', applied, related⟩ := h.unlock point
        exact .inr ⟨_, a', applied, related⟩
      | cons m moves =>
        simp only [Rubiks.listenerStep, point] at step
        obtain ⟨cubeCopy, turned, copied⟩ := Option.bind_eq_some_iff.1 step
        cases copied
        refine .inl (h.move (inside _ _) (posting _ _) (fun c _ finishes => ?_) fun _ => rfl)
        rw [point] at finishes
        change (rotate s.globalCubeState (m.face : Nat) m.direction).bind _ = some c at finishes
        rw [turned, Option.bind_some] at finishes
        rw [ListenerPoint.finish, finishPlan, storeFaces_copyStores]
        exact finishes
  | posting =>
    simp only [Rubiks.listenerStep, point] at step
    cases step
    obtain ⟨a', posted, related⟩ := h.post point
    exact .inr ⟨_, a', posted, related⟩

/-- The broadcaster's next step is no step of the server or one. -/
theorem broadcasterStep (h : Simulates s a) {buffer : Fin 56 → Char8} {s' : ThreadState ι}
    (step : broadcasterStep s buffer = some s') :
    Simulates s' a ∨ ∃ event a', serverStep a event = some a' ∧ Simulates s' a' := by
  have point := h.broadcaster
  have reader := h.reader
  cases here : s.broadcaster with
  | waiting =>
    rw [here] at point reader
    simp only [Rubiks.broadcasterStep, here, Option.ite_none_left_eq_some] at step
    obtain ⟨posted, taken⟩ := step
    cases taken
    refine .inr ⟨.wait, _, serverStep_wait.2 ⟨point, by rwa [h.ready], rfl⟩, ?_⟩
    exact { h with
      ready := by rw [h.ready]
      broadcaster := rfl
      reader := reader
      reading := by rintro msg faces ⟨⟩ }
  | locking =>
    rw [here] at point reader
    simp only [Rubiks.broadcasterStep, here, Option.ite_none_left_eq_some, Option.not_isSome_iff_eq_none] at step
    obtain ⟨free, taken⟩ := step
    cases taken
    refine .inl { h with
      broadcaster := point
      owner := fun i => by simp [h.owner i, free]
      reader := by simp [BroadcasterPoint.Inside]
      idle := fun _ => h.idle (by simp [free])
      busy := by simp
      reading := ?_ }
    rintro msg faces ⟨⟩
    exact encode_eq s.globalCubeState buffer
  | encoding msg faces =>
    have reading := h.reading msg faces here
    rw [here] at point reader
    have locked := reader.1 trivial
    cases faces with
    | cons i faces =>
      simp only [Rubiks.broadcasterStep, here] at step
      cases step
      refine .inl { h with broadcaster := point, reader := reader, reading := ?_ }
      rintro msg' faces' ⟨⟩
      exact reading
    | nil =>
      simp only [Rubiks.broadcasterStep, here] at step
      cases step
      -- no listener was inside while the six faces were read: the text shows one cube
      obtain ⟨cube, history⟩ := h.idle (by simp [locked])
      have message : (⟨encode a.globalCubeState buffer, a.history.length⟩ : Snapshot) =
          ⟨encodeEnd msg, s.locked.length⟩ := by
        rw [encode_eq, cube, history, ← reading]
        rfl
      refine .inr ⟨.encode buffer, _, serverStep_encode.2 ⟨point, rfl⟩, ?_⟩
      rw [message]
      exact {
        ready := h.ready
        posting := h.posting
        broadcaster := rfl
        produced := congrArg (· ++ _) h.produced
        sent := h.sent
        owner := fun i => by simp [h.owner i, locked]
        reader := by simp [BroadcasterPoint.Inside]
        idle := fun _ => ⟨cube, history⟩
        busy := by simp
        reading := by rintro msg' faces' ⟨⟩ }
  | sending message rest =>
    rw [here] at point reader
    cases rest with
    | cons k rest =>
      simp only [Rubiks.broadcasterStep, here] at step
      cases step
      refine .inr ⟨.send, _, serverStep_send.2 ⟨message, k, rest, point, rfl⟩, ?_⟩
      exact { h with
        broadcaster := rfl
        sent := by rw [h.sent]
        reader := reader
        reading := by rintro msg' faces' ⟨⟩ }
    | nil =>
      simp only [Rubiks.broadcasterStep, here] at step
      cases step
      refine .inr ⟨.finish, _, serverStep_finish.2 ⟨⟨message, point⟩, rfl⟩, ?_⟩
      exact { h with
        broadcaster := rfl
        reader := reader
        reading := by rintro msg' faces' ⟨⟩ }

end Simulates

/-- **The threads simulate the critical sections.** -/
theorem threads_simulate (lines : ι → List Command) :
    System.Simulation (threads lines) (broadcasts ι) Simulates where
  init s start := ⟨.start, rfl, start ▸ .start lines⟩
  step s a event s' reach related step := by
    cases event with
    | listener i draws => exact related.listenerStep (broadcastInv reach) step
    | broadcaster buffer => exact related.broadcasterStep step

/-! ## No lost update and no torn snapshot -/

/-- The command a listener has read and not locked for yet. -/
def ListenerPoint.inHand : ListenerPoint → List Command
  | .locking command => [command]
  | _ => []

/-- The commands of a listener: locked for, in hand, and still to be read. -/
def ThreadState.commands (s : ThreadState ι) (i : ι) : List Command :=
  commandsOf s.locked i ++ (s.listener i).inHand ++ s.lines i

theorem inHand_update {listener : ι → ListenerPoint} {i : ι} {p : ListenerPoint}
    (same : p.inHand = (listener i).inHand) (j : ι) :
    (Function.update listener i p j).inHand = (listener j).inHand := by
  by_cases own : j = i
  · subst own
    rw [Function.update_self, same]
  · rw [Function.update_of_ne own]

/-- No step of a listener loses, repeats or reorders commands. -/
theorem listenerStep_commands {s s' : ThreadState ι} {i : ι} {draws : Draws}
    (step : listenerStep s i draws = some s') (j : ι) : s'.commands j = s.commands j := by
  -- all steps but the first two leave the lines, the log and what is in hand
  have kept : ∀ p : ListenerPoint, p.inHand = (s.listener i).inHand →
      commandsOf s.locked j ++ (Function.update s.listener i p j).inHand ++ s.lines j = s.commands j := by
    intro p same
    rw [inHand_update same]
    rfl
  cases point : s.listener i with
  | outside =>
    simp only [listenerStep, point] at step
    cases unread : s.lines i with
    | nil =>
      rw [unread] at step
      cases step
    | cons command lines =>
      rw [unread] at step
      cases step
      by_cases own : j = i
      · subst own
        simp [ThreadState.commands, point, unread, ListenerPoint.inHand]
      · simp [ThreadState.commands, own]
  | locking command =>
    simp only [listenerStep, point, Option.ite_none_left_eq_some] at step
    obtain ⟨-, taken⟩ := step
    cases taken
    by_cases own : j = i
    · subst own
      simp [ThreadState.commands, point, commandsOf_concat, ListenerPoint.inHand]
    · simp [ThreadState.commands, own, Ne.symm own, commandsOf_concat]
  | decoding command draws =>
    simp only [listenerStep, point] at step
    cases step
    exact kept _ (by rw [point]; rfl)
  | storing stores moves =>
    rcases stores with _ | ⟨w, stores⟩
    · rcases moves with _ | ⟨m, moves⟩
      · simp only [listenerStep, point] at step
        cases step
        exact kept _ (by rw [point]; rfl)
      · simp only [listenerStep, point] at step
        obtain ⟨cubeCopy, -, copied⟩ := Option.bind_eq_some_iff.1 step
        cases copied
        exact kept _ (by rw [point]; rfl)
    · simp only [listenerStep, point] at step
      cases step
      exact kept _ (by rw [point]; rfl)
  | posting =>
    simp only [listenerStep, point] at step
    cases step
    exact kept _ (by rw [point]; rfl)

/-- The broadcaster leaves the commands alone. -/
theorem broadcasterStep_commands {s s' : ThreadState ι} {buffer : Fin 56 → Char8}
    (step : broadcasterStep s buffer = some s') (j : ι) : s'.commands j = s.commands j := by
  rcases here : s.broadcaster with _ | _ | ⟨msg, _ | ⟨i, faces⟩⟩ | ⟨message, _ | ⟨k, rest⟩⟩ <;>
    simp only [broadcasterStep, here, Option.ite_none_left_eq_some, Option.some.injEq] at step
  case waiting | locking =>
    rw [← step.2]
    rfl
  all_goals
    rw [← step]
    rfl

theorem threads_commands {lines : ι → List Command} {s : ThreadState ι} (h : (threads lines).Reach s) (i : ι) :
    s.commands i = lines i := by
  induction h with
  | init start =>
    cases start
    rfl
  | @step _ _ event _ next ih =>
    cases event with
    | listener j draws => exact (listenerStep_commands next i).trans ih
    | broadcaster buffer => exact (broadcasterStep_commands next i).trans ih

omit [DecidableEq ι] in
/-- The commands applied are the first ones in lock order. -/
theorem Simulates.locked_eq {s : ThreadState ι} {a : ServerState ι} (h : Simulates s a) :
    ∃ rest, s.locked = a.history ++ rest := by
  by_cases held : ∃ i, s.globalCubeStateLock = some (.listener i)
  · obtain ⟨i, locked⟩ := held
    obtain ⟨e, -, history, -⟩ := h.busy i locked
    exact ⟨[e], history⟩
  · obtain ⟨-, history⟩ := h.idle fun i locked => held ⟨i, locked⟩
    exact ⟨[], by rw [history, List.append_nil]⟩

/-- **No lost update and no torn snapshot.** In every state of every interleaving:
the lock order holds each listener's commands in the order given; each message
encodes the cube after the first `version` commands in lock order; the `k`-th shows
at least `k` commands and none shows fewer than one before it; and once the threads
rest, every command was broadcast, the last message shows the cube, and every pipe
was sent every message. -/
theorem threads_broadcast (lines : ι → List Command) {s : ThreadState ι} (h : (threads lines).Reach s) :
    (∀ i, commandsOf s.locked i ++ (s.listener i).inHand ++ s.lines i = lines i) ∧
    (∀ m ∈ s.produced, m.version ≤ s.locked.length ∧
      ∃ c, cubeAfter (s.locked.take m.version) = some c ∧ ∀ buffer, m.msg = encode c buffer) ∧
    (∀ k m, s.produced[k]? = some m → k + 1 ≤ m.version) ∧
    s.produced.Pairwise (fun m m' => m.version ≤ m'.version) ∧
    ((∀ i, s.listener i = .outside) → s.broadcastMessageReady = 0 → s.broadcaster = .waiting →
      cubeAfter s.locked = some s.globalCubeState ∧ s.produced.length = s.locked.length ∧
      (∀ m, s.produced.getLast? = some m → ∀ buffer, m.msg = encode s.globalCubeState buffer) ∧
      ∀ k, s.sent k = s.produced) := by
  obtain ⟨a, reach, related⟩ := (threads_simulate lines).reach h
  have inv := broadcastInv reach
  refine ⟨threads_commands h, fun m mem => ?_, ?_, ?_, fun outside taken waiting => ?_⟩
  · obtain ⟨rest, locked⟩ := related.locked_eq
    obtain ⟨c, ⟨bound, run⟩, msg⟩ := (inv.shows m (related.produced ▸ mem)).append rest
    rw [locked]
    exact ⟨bound, c, run, fun buffer => by rw [msg, encode_eq]⟩
  · rw [← related.produced]
    exact inv.enough
  · rw [← related.produced]
    exact inv.sorted
  · have free : ∀ i, s.globalCubeStateLock ≠ some (.listener i) := by
      intro i locked
      have inside := (related.owner i).2 locked
      rw [outside i] at inside
      exact inside
    obtain ⟨cube, history⟩ := related.idle free
    have posted : a.posting = ∅ := by
      apply Finset.eq_empty_of_forall_notMem
      intro i mem
      have point := (related.posting i).1 mem
      rw [outside i] at point
      cases point
    obtain ⟨length, last, sent⟩ := inv.settled posted (related.ready.trans taken)
      (by rw [related.broadcaster, waiting]; rfl)
    rw [related.produced] at length last sent
    rw [related.sent] at sent
    rw [← history, ← cube]
    exact ⟨inv.cube, length, fun m mem buffer => by rw [(last m mem).2, encode_eq], sent⟩

/-- The second listener takes the mutex between the first one's post and the broadcaster:
both messages show both commands, and all is at rest in the end. -/
theorem threads_broadcast_two_listeners :
    let lines : Bool → List Command := fun _ => [⟨0, 1, [newline, nul]⟩]
    let events := List.replicate 12 (.listener true default) ++ .broadcaster (fun _ => nul) ::
      (List.replicate 11 (.listener false default) ++ List.replicate 15 (.broadcaster fun _ => nul) ++
        .listener false default :: List.replicate 16 (.broadcaster fun _ => nul))
    ∃ s m m', (threads lines).run (.start lines) events = some s ∧ s.produced = [m, m'] ∧ m.version = 2 ∧
      (∃ c, cubeAfter s.locked = some c ∧ ∀ buffer, m.msg = encode c buffer) ∧
      cubeAfter s.locked = some s.globalCubeState ∧ (∀ buffer, m'.msg = encode s.globalCubeState buffer) ∧
      ∀ k, s.sent k = [m, m'] := by
  intro lines events
  obtain ⟨s, m, m', run, produced, version, two, outside, taken, waiting⟩ : ∃ s m m',
      (threads lines).run (.start lines) events = some s ∧ s.produced = [m, m'] ∧ m.version = 2 ∧
      s.locked.length = 2 ∧ (∀ i, s.listener i = .outside) ∧ s.broadcastMessageReady = 0 ∧ s.broadcaster = .waiting :=
    ⟨_, _, _, rfl, rfl, rfl, rfl, fun i => by cases i <;> rfl, rfl, rfl⟩
  obtain ⟨-, shows, -, -, rest⟩ := threads_broadcast lines (.run (.init rfl) run)
  obtain ⟨-, c, first, text⟩ := shows m (by simp [produced])
  rw [version, ← two, List.take_length] at first
  obtain ⟨cube, -, last, sent⟩ := rest outside taken waiting
  exact ⟨s, m, m', run, produced, version, ⟨c, first, text⟩, cube, last m' (by rw [produced]; rfl),
    fun k => (sent k).trans produced⟩

end Rubiks

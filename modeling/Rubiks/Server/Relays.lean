import Rubiks.Client.Input

/-!
# Lines through the relays

Every line crosses two byte streams: a relay thread of the client-facing process reads
it with `getline` and writes it on with `fputs`, and the listener or the client reads it
with `getline` again. A stream arrives in chunks of any size, and each loop keeps one
buffer in which older bytes stay behind the NUL. What was sent arrives
(`framing_survives`).
-/

namespace Rubiks

open Logic

/-- `getline` stores a line and a NUL; the bytes behind stay as they were. Where the
buffer had to grow nothing is known of them. -/
def storeLine (buffer line : List Char8) : List Char8 := line ++ nul :: buffer.drop (line.length + 1)

/-- What one buffer holds after each of the lines. -/
def storeLines (buffer : List Char8) : List (List Char8) → List (List Char8)
  | [] => []
  | line :: lines => storeLine buffer line :: storeLines (storeLine buffer line) lines

/-- What a `while (getline(..) != -1)` loop finds in its buffer, round after round. -/
def getlineLoop (buffer : List Char8) (chunks : List (List Char8)) : List (List Char8) :=
  storeLines buffer (readChunks newline [] chunks)

theorem getlineLoop_eq (buffer : List Char8) (chunks : List (List Char8)) :
    getlineLoop buffer chunks = storeLines buffer (splitAfter newline chunks.flatten) := by
  rw [getlineLoop, readChunks_eq (by simp), List.nil_append]

/-- A function that does not look behind the NUL sees the lines. -/
theorem map_storeLines {β : Type} {f g : List Char8 → β} {lines : List (List Char8)}
    (same : ∀ line ∈ lines, ∀ buffer, f (storeLine buffer line) = g line) (buffer : List Char8) :
    (storeLines buffer lines).map f = lines.map g := by
  induction lines generalizing buffer with
  | nil => rfl
  | cons line lines ih =>
    rw [storeLines, List.map_cons, List.map_cons, same line (by simp), ih fun l mem => same l (by simp [mem])]

theorem storeLines_append (buffer : List Char8) (lines lines' : List (List Char8)) :
    storeLines buffer (lines ++ lines') =
      storeLines buffer lines ++ storeLines (lines.foldl storeLine buffer) lines' := by
  induction lines generalizing buffer with
  | nil => rfl
  | cons line lines ih => rw [List.cons_append, storeLines, ih, storeLines, List.cons_append, List.foldl_cons]

theorem mem_storeLines {stored buffer : List Char8} {lines : List (List Char8)}
    (mem : stored ∈ storeLines buffer lines) : ∃ line ∈ lines, ∃ behind, stored = storeLine behind line := by
  induction lines generalizing buffer with
  | nil => cases mem
  | cons line lines ih =>
    rcases List.mem_cons.1 mem with rfl | mem
    · exact ⟨line, by simp, buffer, rfl⟩
    · obtain ⟨l, mem, behind, same⟩ := ih mem
      exact ⟨l, by simp [mem], behind, same⟩

/-- A loop that does not look behind the NUL runs as on the lines. -/
theorem foldlM_storeLines {σ : Type} {f g : σ → List Char8 → Option σ} {lines : List (List Char8)}
    (same : ∀ line ∈ lines, ∀ buffer s, f s (storeLine buffer line) = g s line) (buffer : List Char8) (s : σ) :
    (storeLines buffer lines).foldlM f s = lines.foldlM g s := by
  induction lines generalizing buffer s with
  | nil => rfl
  | cons line lines ih =>
    rw [storeLines, List.foldlM_cons, List.foldlM_cons, same line (by simp)]
    congr 1
    funext s
    exact ih (fun l mem => same l (by simp [mem])) (storeLine buffer line) s

theorem storeLine_eq_append (buffer line : List Char8) :
    storeLine buffer line = lineBuffer line ++ buffer.drop (line.length + 1) := by
  simp [storeLine, lineBuffer]

/-! ## The relay threads -/

theorem fputs_storeLine {line : List Char8} (h : nul ∉ line) (buffer : List Char8) :
    fputs (storeLine buffer line) = line := fputs_append_nul h _

/-- A relay writes each line on: the bytes written, in order. -/
def relayLines (buffer : List Char8) (chunks : List (List Char8)) : List Char8 :=
  ((getlineLoop buffer chunks).map fputs).flatten

def clientFacingThreadListenToPipe : List Char8 → List (List Char8) → List Char8 := relayLines

def clientFacingThreadListenToSocket : List Char8 → List (List Char8) → List Char8 := relayLines

/-- A relay passes on a stream without NULs byte for byte, its last line included. -/
theorem relayLines_eq {chunks : List (List Char8)} (h : nul ∉ chunks.flatten) (buffer : List Char8) :
    relayLines buffer chunks = chunks.flatten := by
  have whole := flatten_splitAfter newline chunks.flatten
  have clean : ∀ line ∈ splitAfter newline chunks.flatten, nul ∉ line := by
    intro line mem found
    rw [← whole] at h
    exact h (List.mem_flatten_of_mem mem found)
  rw [relayLines, getlineLoop_eq, map_storeLines (g := id) (fun line mem => fputs_storeLine (clean line mem)),
    List.map_id, whole]

/-! ## Broadcasts at a client -/

/-- `decode` looks at no byte after the 54th. -/
theorem decode_append (d : Cube) {text : List Char8} (long : 54 ≤ text.length) (rest : List Char8) :
    decode d (text ++ rest) = decode d text := by
  rw [decode_eq d long, decode_eq d (by rw [List.length_append]; omega)]
  congr 2
  funext s
  rw [List.getD_append _ _ _ _ (by omega)]

theorem decode_storeLine {c : Cube} (h : c.Framed) (d : Cube) (buffer : List Char8) :
    decode d (storeLine buffer (cubeLine c)) = some (d.paint c.coloring) := by
  have long : 54 ≤ (lineBuffer (cubeLine c)).length := by
    rw [lineBuffer, List.length_append, cubeLine_length]
    omega
  rw [storeLine_eq_append, decode_append d long, decode_cubeLine h]

/-- `listen_to_socket_and_signal_semaphore_to_view`: the successive values of
`cube_state_to_display`. -/
def displayLoop (display : Cube) : List (List Char8) → Option (List Cube)
  | [] => some []
  | line :: lines => do
    let display ← decode display line
    let later ← displayLoop display lines
    some (display :: later)

/-- The colours `decode` reads from a buffer. -/
def textColoring (text : List Char8) : Square → Int := fun s => (text.getD (s.1.val * 9 + s.2.val) nul).toInt - 48

/-- On long enough buffers each round displays the colours of its own line. -/
theorem displayLoop_eq {lines : List (List Char8)} (long : ∀ line ∈ lines, 54 ≤ line.length) (display : Cube) :
    displayLoop display lines = some ((lines.map textColoring).map display.paint) := by
  induction lines generalizing display with
  | nil => rfl
  | cons line lines ih =>
    have shown : decode display line = some (display.paint (textColoring line)) := decode_eq display (long line (by simp))
    have later := ih (fun l mem => long l (by simp [mem])) (display.paint (textColoring line))
    simp only [displayLoop, shown, later, Option.bind_eq_bind, Option.bind_some, List.map_cons]
    rfl

theorem textColoring_cubeLine {c : Cube} (h : c.Framed) (buffer : List Char8) :
    textColoring (storeLine buffer (cubeLine c)) = c.coloring := by
  have long : 54 ≤ (storeLine buffer (cubeLine c)).length := by
    rw [storeLine, List.length_append, cubeLine_length]
    omega
  have decoded := decode_storeLine h c buffer
  rw [decode_eq c long] at decoded
  exact congrArg Cube.coloring (Option.some.inj decoded)

/-- The colours of cube lines are those of the cubes, whatever the buffer held. -/
theorem map_textColoring {cubes : List Cube} (framed : ∀ c ∈ cubes, c.Framed) (buffer : List Char8) :
    (storeLines buffer (cubes.map cubeLine)).map textColoring = cubes.map Cube.coloring := by
  rw [map_storeLines (g := fun line => textColoring (storeLine [] line)) (List.forall_mem_map.2 fun c mem buffer => by
    rw [textColoring_cubeLine (framed c mem), textColoring_cubeLine (framed c mem)]), List.map_map]
  exact List.map_congr_left fun c mem => textColoring_cubeLine (framed c mem) []

/-- A client that reads cube lines displays those cubes. -/
theorem displayLoop_cubeLines {cubes : List Cube} (framed : ∀ c ∈ cubes, c.Framed) (display : Cube)
    (buffer : List Char8) :
    displayLoop display (storeLines buffer (cubes.map cubeLine)) =
      some ((cubes.map Cube.coloring).map display.paint) := by
  have long : ∀ stored ∈ storeLines buffer (cubes.map cubeLine), 54 ≤ stored.length := by
    intro stored mem
    obtain ⟨line, sent, behind, rfl⟩ := mem_storeLines mem
    obtain ⟨c, -, rfl⟩ := List.mem_map.1 sent
    rw [storeLine, List.length_append, cubeLine_length]
    omega
  rw [displayLoop_eq long, map_textColoring framed]

/-! ## Commands at the server -/

/-- What `decode_user_input` reads from a command: a face number and a direction. -/
def commandPair (command : List Char8) : Option (Int × Int) := do
  let c0 ← command[0]?
  let c1 ← command[1]?
  some (c0.toInt - 48, c1.toInt - 48)

/-- `decode_user_input` uses nothing else of its command. -/
theorem decodeUserInput_eq_pair (command : List Char8) (c : Cube) (draws : Draws) :
    decodeUserInput command c draws = (commandPair command).bind fun pair =>
      if pair.2 = 2 then
        if isSolved c ≠ 0 then shuffle c minDepth maxDepth draws else some (resetFaces c)
      else rotate c pair.1 pair.2 := by
  simp only [decodeUserInput, commandPair]
  cases command[0]? with
  | none => rfl
  | some c0 => cases command[1]? <;> rfl

theorem commandPair_storeLine (face : FaceId) (code : Fin 3) (buffer : List Char8) :
    commandPair (storeLine buffer (messageLine face code)) = some (((face : Nat) : Int), ((code : Nat) : Int)) := by
  have read : ∀ (face : FaceId) (code : Fin 3),
      (digit face).toInt - 48 = (face : Nat) ∧ (digit code).toInt - 48 = (code : Nat) := by decide
  obtain ⟨first, second⟩ := read face code
  refine Eq.trans (b := some ((digit face).toInt - 48, (digit code).toInt - 48)) rfl ?_
  rw [first, second]

/-- A call of `encode_user_input` that returned 0. -/
structure SentMessage where
  input : Int
  faceNum : Int
  buffer : Fin 4 → Char8
  encoded : Fin 4 → Char8
  accepted : encodeUserInput input faceNum buffer = (0, encoded)

/-- What `fputs` sends of it. -/
def SentMessage.text (m : SentMessage) : List Char8 := fputs (List.ofFn m.encoded)

/-- The direction code of a key. -/
def keyDirection (input : Int) : Int := if input = keyA then 1 else if input = keyD then 0 else 2

theorem keyDirection_of_code {input : Int} {code : Fin 3} (h : keyCode input = some code) :
    keyDirection input = (code : Nat) := by
  unfold keyCode at h
  unfold keyDirection
  split at h
  · rename_i a
    cases h
    rw [if_pos a]
    rfl
  · rename_i a
    rw [if_neg a]
    split at h
    · rename_i d
      cases h
      rw [if_pos d]
      rfl
    · rename_i d
      rw [if_neg d]
      split at h
      · cases h
        rfl
      · cases h

theorem SentMessage.text_eq (m : SentMessage) : ∃ (face : FaceId) (code : Fin 3),
    m.text = messageLine face code ∧ m.faceNum = (face : Nat) ∧ keyDirection m.input = (code : Nat) := by
  obtain ⟨face, code, faceNum, key, text⟩ := encodeUserInput_success m.accepted
  exact ⟨face, code, text, faceNum, keyDirection_of_code key⟩

/-- A sent message is a record of the stream, without a NUL. -/
theorem SentMessage.framed (m : SentMessage) : Terminated newline m.text ∧ nul ∉ m.text := by
  have clean : ∀ (face : FaceId) (code : Fin 3), nul ∉ messageLine face code := by decide
  obtain ⟨face, code, text, -⟩ := m.text_eq
  rw [text]
  exact ⟨messageLine_terminated face code, clean face code⟩

/-! ## Both directions -/

/-- Lines that are sent whole pass a relay and are cut into the same lines again. -/
theorem getlineLoop_relay {lines : List (List Char8)} (records : ∀ line ∈ lines, Terminated newline line)
    (clean : ∀ line ∈ lines, nul ∉ line) {relayBuffer buffer : List Char8} {chunks chunks' : List (List Char8)}
    (sent : chunks.flatten = lines.flatten) (relayed : chunks'.flatten = relayLines relayBuffer chunks) :
    getlineLoop buffer chunks' = storeLines buffer lines := by
  have noNul : nul ∉ chunks.flatten := by
    rw [sent]
    intro found
    obtain ⟨line, mem, inside⟩ := List.mem_flatten.1 found
    exact clean line mem inside
  rw [getlineLoop_eq, relayed, relayLines_eq noNul, sent, splitAfter_flatten records]

/-- What the broadcaster writes of framed cubes is their lines. -/
theorem map_fputs_encode {broadcasts : List (Cube × (Fin 56 → Char8))} (framed : ∀ b ∈ broadcasts, b.1.Framed) :
    (broadcasts.map fun b => fputs (List.ofFn (encode b.1 b.2))) = (broadcasts.map Prod.fst).map cubeLine := by
  rw [List.map_map]
  exact List.map_congr_left fun b mem => fputs_encode (framed b mem) b.2

/-- **Framing survives the relays.** Whatever the chunks: the cubes that were encoded are
displayed, as many and in the same order, and each accepted message arrives as its face
and its direction. -/
theorem framing_survives :
    (∀ (broadcasts : List (Cube × (Fin 56 → Char8))), (∀ b ∈ broadcasts, b.1.Framed) →
      ∀ (relayBuffer clientBuffer : List Char8) (chunks chunks' : List (List Char8)) (display : Cube),
        chunks.flatten = (broadcasts.map fun b => fputs (List.ofFn (encode b.1 b.2))).flatten →
        chunks'.flatten = clientFacingThreadListenToPipe relayBuffer chunks →
        ∃ shown, displayLoop display (getlineLoop clientBuffer chunks') = some shown ∧
          shown.map Cube.coloring = broadcasts.map fun b => b.1.coloring) ∧
    ∀ (sent : List SentMessage) (relayBuffer listenerBuffer : List Char8) (chunks chunks' : List (List Char8)),
      chunks.flatten = (sent.map SentMessage.text).flatten →
      chunks'.flatten = clientFacingThreadListenToSocket relayBuffer chunks →
      (getlineLoop listenerBuffer chunks').map commandPair =
        sent.map fun m => some (m.faceNum, keyDirection m.input) := by
  refine ⟨fun broadcasts framed relayBuffer clientBuffer chunks chunks' display stream relayed => ?_,
    fun sent relayBuffer listenerBuffer chunks chunks' stream relayed => ?_⟩
  · have each : ∀ c ∈ broadcasts.map Prod.fst, c.Framed := List.forall_mem_map.2 framed
    rw [map_fputs_encode framed] at stream
    rw [getlineLoop_relay (List.forall_mem_map.2 fun c mem => cubeLine_terminated (each c mem))
      (List.forall_mem_map.2 fun c mem => nul_notMem_cubeLine (each c mem)) stream relayed]
    refine ⟨_, displayLoop_cubeLines each display clientBuffer, ?_⟩
    rw [List.map_map, List.map_map, List.map_map]
    rfl
  · have read : ∀ (m : SentMessage) (buffer : List Char8),
        commandPair (storeLine buffer m.text) = some (m.faceNum, keyDirection m.input) := by
      intro m buffer
      obtain ⟨face, code, text, faceNum, direction⟩ := m.text_eq
      rw [text, commandPair_storeLine, faceNum, direction]
    rw [getlineLoop_relay (List.forall_mem_map.2 fun m _ => m.framed.1) (List.forall_mem_map.2 fun m _ => m.framed.2)
        stream relayed,
      map_storeLines (g := fun line => commandPair (storeLine [] line))
        (List.forall_mem_map.2 fun m _ buffer => (read m buffer).trans (read m []).symm),
      List.map_map]
    exact List.map_congr_left fun m _ => read m []

/-- A solved cube whose line arrives in two chunks, and a message cut after its face. -/
theorem framing_survives_chunks :
    (∃ shown, displayLoop makeCube (getlineLoop [] [clientFacingThreadListenToPipe []
        [(cubeLine makeCube).take 20, (cubeLine makeCube).drop 20]]) = some shown ∧
      shown.map Cube.coloring = [solvedColoring]) ∧
    (getlineLoop [] [clientFacingThreadListenToSocket [] [[digit 4], [digit 1, newline]]]).map commandPair =
      [some (4, 1)] := by
  have framed := reachable_makeCube.digitColors.framed
  have text : fputs (List.ofFn (encode makeCube fun _ => nul)) = cubeLine makeCube := fputs_encode framed _
  refine ⟨framing_survives.1 [(makeCube, fun _ => nul)] (by simpa using framed) [] []
    [(cubeLine makeCube).take 20, (cubeLine makeCube).drop 20] _ makeCube ?_ (List.flatten_singleton ..), ?_⟩
  · rw [List.map_singleton, text, List.flatten_cons, List.flatten_singleton, List.flatten_singleton,
      List.take_append_drop]
  · exact framing_survives.2 [⟨keyA, 4, fun _ => nul, _, rfl⟩] [] [] [[digit 4], [digit 1, newline]] _ (by decide)
      (List.flatten_singleton ..)

end Rubiks

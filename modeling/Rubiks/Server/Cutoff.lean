import Rubiks.Server.Relays
import Rubiks.Server.Solve

/-!
# A stream that ends within a message

At end of file `getline` hands out the bytes after the last newline as one more line.
`decode` then reads 54 bytes and `decode_user_input` two, whatever the line holds: behind
it they find the NUL, as a colour or as a direction, and then older bytes of the buffer.
`cutoff_exact` says which cuts are without effect.
-/

namespace Rubiks

open Logic

/-- What arrives of a message when the stream ends within it. -/
structure CutOff (part text : List Char8) : Prop where
  start : part <+: text
  nonempty : part ≠ []
  proper : part ≠ text

theorem CutOff.length_pos {part text : List Char8} (h : CutOff part text) : 0 < part.length :=
  List.length_pos_of_ne_nil h.nonempty

theorem CutOff.length_lt {part text : List Char8} (h : CutOff part text) : part.length < text.length :=
  lt_of_le_of_ne h.start.length_le fun same => h.proper (h.start.eq_of_length same)

/-- No part of a record holds its separator. -/
theorem CutOff.newline_notMem {part text : List Char8} (h : CutOff part text) (record : Terminated newline text) :
    newline ∉ part := by
  obtain ⟨body, rfl, free⟩ := record
  have short := h.length_lt
  rw [List.length_append, List.length_singleton] at short
  exact fun mem => free ((List.prefix_of_prefix_length_le h.start (List.prefix_append ..) (by omega)).subset mem)

/-! ## Broadcasts -/

/-- `INITIAL_LINE_SIZE`: no broadcast makes `getline` grow the buffer. -/
def initialLineSize : Nat := 82

theorem length_storeLine {buffer line : List Char8} (fits : line.length < buffer.length) :
    (storeLine buffer line).length = buffer.length := by
  rw [storeLine, List.length_append, List.length_cons, List.length_drop]
  omega

theorem length_of_mem_storeLines {buffer : List Char8} {lines : List (List Char8)}
    (fits : ∀ line ∈ lines, line.length < buffer.length) : ∀ stored ∈ storeLines buffer lines, stored.length = buffer.length := by
  induction lines generalizing buffer with
  | nil => simp [storeLines]
  | cons line lines ih =>
    have length := length_storeLine (fits line (by simp))
    intro stored mem
    rcases List.mem_cons.1 mem with rfl | mem
    · exact length
    · rw [← length]
      exact ih (fun l mem => length ▸ fits l (by simp [mem])) stored mem

/-- Every cube in `shown` is what a whole broadcast of one of `cubes` decodes to. -/
def DisplaysComplete (display : Cube) (cubes shown : List Cube) : Prop :=
  ∀ d ∈ shown, ∃ c ∈ cubes, ∀ result, decode display (List.ofFn (encode c result)) = some d

theorem displaysComplete_iff {display : Cube} {cubes : List Cube} (framed : ∀ c ∈ cubes, c.Framed)
    (shown : List (Square → Int)) : DisplaysComplete display cubes (shown.map display.paint) ↔
      ∀ x ∈ shown, ∃ c ∈ cubes, c.coloring = x := by
  rw [DisplaysComplete, List.forall_mem_map]
  refine forall₂_congr fun x _ => exists_congr fun c => and_congr_right fun mem => ?_
  have decoded : ∀ result, decode display (List.ofFn (encode c result)) = some (display.paint c.coloring) := by
    intro result
    rw [ofFn_encode, decode_cubeLine (framed c mem)]
  constructor
  · intro complete
    have same := complete fun _ => nul
    rw [decoded] at same
    exact congrArg Cube.coloring (Option.some.inj same)
  · rintro rfl result
    exact decoded result

/-- A cut line shows its cube's colours up to the cut and a NUL there. -/
theorem textColoring_cut {c : Cube} (h : c.Framed) {part : List Char8} (cut : CutOff part (cubeLine c))
    (buffer : List Char8) (s : Square) :
    (s.1.val * 9 + s.2.val < part.length → textColoring (storeLine buffer part) s = c.coloring s) ∧
    (s.1.val * 9 + s.2.val = part.length → textColoring (storeLine buffer part) s = -48) := by
  obtain ⟨rest, whole⟩ := cut.start
  refine ⟨fun before => ?_, fun at_ => ?_⟩
  · rw [← textColoring_cubeLine h [], ← whole]
    simp only [textColoring, storeLine, List.append_assoc]
    rw [List.getD_append _ _ _ _ before, List.getD_append _ _ _ _ before]
  · simp only [textColoring, storeLine]
    rw [List.getD_append_right _ _ _ _ (by omega), at_, Nat.sub_self, List.getD_cons_zero]
    rfl

/-- What the last line leaves on the display is one of `cubes` only if just the newline
is missing and the cube was broadcast before. -/
theorem cut_displays_iff {cubes : List Cube} (framed : ∀ c ∈ cubes, c.Framed) {c : Cube} (h : c.Framed)
    {part : List Char8} (cut : CutOff part (cubeLine c)) (buffer : List Char8) :
    (∃ b ∈ cubes, b.coloring = textColoring (storeLine buffer part)) ↔
      part.length = 54 ∧ ∃ b ∈ cubes, b.coloring = c.coloring := by
  have short := cut.length_lt
  rw [cubeLine_length] at short
  by_cases whole : part.length = 54
  · have colors : textColoring (storeLine buffer part) = c.coloring := by
      funext s
      exact (textColoring_cut h cut buffer s).1 (by omega)
    rw [colors]
    exact (and_iff_right whole).symm
  · refine iff_of_false ?_ fun both => whole both.1
    rintro ⟨b, mem, same⟩
    -- the square whose byte is the NUL; the bytes behind it are of no account
    let s : Square := (⟨part.length / 9, by omega⟩, ⟨part.length % 9, by omega⟩)
    have nulColor := (textColoring_cut h cut buffer s).2 (by show part.length / 9 * 9 + part.length % 9 = _; omega)
    rw [← same] at nulColor
    exact (framed b mem s).2.2.1 nulColor

/-- A client whose stream ends within a broadcast: what it displays, and when that is
complete. -/
theorem display_cutoff {cubes : List Cube} (framed : ∀ c ∈ cubes, c.Framed) {c : Cube} (h : c.Framed)
    {part : List Char8} (cut : CutOff part (cubeLine c)) (display : Cube) {buffer : List Char8}
    (size : buffer.length = initialLineSize) {chunks : List (List Char8)}
    (stream : chunks.flatten = (cubes.map cubeLine).flatten ++ part) :
    ∃ shown, displayLoop display (getlineLoop buffer chunks) = some shown ∧
      (DisplaysComplete display cubes shown ↔ part.length = 54 ∧ ∃ b ∈ cubes, b.coloring = c.coloring) := by
  have records : ∀ line ∈ cubes.map cubeLine, Terminated newline line :=
    List.forall_mem_map.2 fun b mem => cubeLine_terminated (framed b mem)
  have lines : getlineLoop buffer chunks = storeLines buffer (cubes.map cubeLine ++ [part]) := by
    rw [getlineLoop_eq, stream,
      splitAfter_flatten_append records cut.nonempty (cut.newline_notMem (cubeLine_terminated h))]
  have fits : ∀ line ∈ cubes.map cubeLine ++ [part], line.length < buffer.length := by
    intro line mem
    rw [size, initialLineSize]
    rcases List.mem_append.1 mem with mem | mem
    · obtain ⟨b, -, rfl⟩ := List.mem_map.1 mem
      rw [cubeLine_length]
      omega
    · obtain rfl := List.mem_singleton.1 mem
      have short := cut.length_lt
      rw [cubeLine_length] at short
      omega
  have long : ∀ stored ∈ storeLines buffer (cubes.map cubeLine ++ [part]), 54 ≤ stored.length := by
    intro stored mem
    rw [length_of_mem_storeLines fits stored mem, size]
    decide
  let before := (cubes.map cubeLine).foldl storeLine buffer
  have colorings : (storeLines buffer (cubes.map cubeLine ++ [part])).map textColoring =
      cubes.map Cube.coloring ++ [textColoring (storeLine before part)] := by
    rw [storeLines_append, List.map_append, map_textColoring framed]
    rfl
  refine ⟨_, by rw [lines, displayLoop_eq long], ?_⟩
  rw [colorings, displaysComplete_iff framed, ← cut_displays_iff framed h cut before]
  constructor
  · exact fun complete => complete _ (by simp)
  · intro complete x mem
    rcases List.mem_append.1 mem with mem | mem
    · obtain ⟨b, known, rfl⟩ := List.mem_map.1 mem
      exact ⟨b, known, rfl⟩
    · rw [List.mem_singleton.1 mem]
      exact complete

/-! ## Commands -/

/-- One round of `server_thread_listen_to_pipe`: `interpret_command` on the buffer. -/
def listenLine (draws : Nat → Draws) (s : ServerCube) (command : List Char8) : Option ServerCube := do
  let cube ← decodeUserInput command s.cube (draws s.shuffles)
  let shuffled := command[1]? = some (digit 2) ∧ isSolved s.cube ≠ 0
  some { cube := cube, shuffles := if shuffled then s.shuffles + 1 else s.shuffles }

/-- `server_thread_listen_to_pipe`: the server's cube once the pipe has ended. -/
def serverThreadListenToPipe (draws : Nat → Draws) (s : ServerCube) (buffer : List Char8)
    (chunks : List (List Char8)) : Option ServerCube :=
  (getlineLoop buffer chunks).foldlM (listenLine draws) s

/-- The two bytes a round reads are those of its line, the NUL included. -/
theorem listenLine_storeLine {line : List Char8} (nonempty : line ≠ []) (draws : Nat → Draws) (s : ServerCube)
    (buffer : List Char8) : listenLine draws s (storeLine buffer line) = serverLine draws s line := by
  obtain ⟨b, rest, rfl⟩ := List.exists_cons_of_ne_nil nonempty
  have second : (storeLine buffer (b :: rest))[1]? = some (secondByte (b :: rest)) := by cases rest <;> rfl
  have pair : commandPair (storeLine buffer (b :: rest)) = commandPair (lineBuffer (b :: rest)) := by
    cases rest <;> rfl
  simp only [listenLine, serverLine, decodeUserInput_eq_pair, pair, second, Option.some.injEq]

/-- Whatever reaches the listener in chunks, it serves line by line. -/
theorem serverThreadListenToPipe_eq (draws : Nat → Draws) (s : ServerCube) (buffer : List Char8)
    (chunks : List (List Char8)) :
    serverThreadListenToPipe draws s buffer chunks = serverStream draws s chunks.flatten := by
  rw [serverThreadListenToPipe, getlineLoop_eq, serverStream]
  exact foldlM_storeLines (fun line mem buffer s => listenLine_storeLine (ne_nil_of_mem_splitAfter mem) draws s buffer)
    buffer s

theorem serverLine_cube {draws : Nat → Draws} {s : ServerCube} {line : List Char8} {d : Cube}
    (decoded : decodeUserInput (lineBuffer line) s.cube (draws s.shuffles) = some d) :
    ∃ after, serverLine draws s line = some after ∧ after.cube = d := by
  rw [serverLine, decoded]
  exact ⟨_, rfl, rfl⟩

/-- Messages sent whole are served, and the cube stays reachable. -/
theorem serverLine_messages (draws : Nat → Draws) {s : ServerCube} (h : Reachable s.cube) (sent : List SentMessage) :
    ∃ whole, (sent.map SentMessage.text).foldlM (serverLine draws) s = some whole ∧ Reachable whole.cube := by
  induction sent generalizing s with
  | nil => exact ⟨s, rfl, h⟩
  | cons m sent ih =>
    obtain ⟨face, code, text, -⟩ := m.text_eq
    obtain ⟨cube, decoded, reach⟩ := h.command ⟨face, code, [newline, nul]⟩ (draws s.shuffles)
    have line : lineBuffer m.text = Command.line ⟨face, code, [newline, nul]⟩ := by
      rw [text]
      rfl
    rw [← line] at decoded
    obtain ⟨after, served, rfl⟩ := serverLine_cube decoded
    obtain ⟨whole, rest, reach⟩ := ih reach
    refine ⟨whole, ?_, reach⟩
    rw [List.map_cons, List.foldlM_cons, served]
    exact rest

theorem cutOff_messageLine {part : List Char8} {face : FaceId} {code : Fin 3} (cut : CutOff part (messageLine face code)) :
    part = [digit face] ∨ part = [digit face, digit code] := by
  have first := cut.length_pos
  have short : part.length < 3 := cut.length_lt
  have taken := List.prefix_iff_eq_take.1 cut.start
  obtain one | two : part.length = 1 ∨ part.length = 2 := by omega
  · rw [one] at taken
    exact .inl taken
  · rw [two] at taken
    exact .inr taken

/-- A message that lost its direction turns its face: the NUL reads as a direction. -/
theorem decode_face {c : Cube} (h : Reachable c) (face : FaceId) (draws : Draws) :
    ∃ d, decodeUserInput (lineBuffer [digit face]) c draws = some d ∧ d ≠ c := by
  have code : secondByte [digit face] = nul := rfl
  have decoded : decodeUserInput (lineBuffer [digit face]) c draws = rotate c (face : Nat) (nul.toInt - 48) := by
    rw [decodeUserInput_lineBuffer (by simp), code, if_neg (by decide)]
    exact congrArg (fun n => rotate c n _) (digit_toInt face)
  rw [decoded]
  refine ⟨_, rotate_eq h.standard face _, fun same => h.rotate_ne face (nul.toInt - 48) ?_⟩
  rw [rotate_eq h.standard, same]

/-- The turns a shuffle of the solved cube draws bring it back to itself. -/
def ShufflesBack (draws : Draws) : Prop := runMoves makeCube (draws.moves (defaultRange.depth draws)) = some makeCube

/-- A message that lost its newline is served all the same. -/
theorem decode_faceCode {c : Cube} (h : Reachable c) (face : FaceId) (code : Fin 3) (draws : Draws) :
    ∃ d, decodeUserInput (lineBuffer [digit face, digit code]) c draws = some d ∧
      (d = c ↔ code = 2 ∧ isSolved c = 1 ∧ ShufflesBack draws) := by
  have line : lineBuffer [digit face, digit code] = Command.line ⟨face, code, [nul]⟩ := rfl
  obtain ⟨d, decoded, -⟩ := h.command ⟨face, code, [nul]⟩ draws
  refine ⟨d, line ▸ decoded, ?_⟩
  rw [decodeUserInput_line] at decoded
  by_cases two : code = 2
  · rw [if_pos two] at decoded
    by_cases solved : isSolved c = 1
    · rw [if_pos (isSolved_ne_zero_iff.2 solved)] at decoded
      obtain rfl := h.isSolved_iff_eq.1 solved
      have drawn : runMoves makeCube (draws.moves (defaultRange.depth draws)) = some d :=
        (shuffle_eq makeCube defaultRange draws).symm.trans decoded
      rw [and_iff_right two, and_iff_right solved, ShufflesBack, drawn, Option.some.injEq]
    · rw [if_neg (mt isSolved_ne_zero_iff.1 solved), resetFaces_eq] at decoded
      obtain rfl := Option.some.inj decoded
      refine iff_of_false (fun same => solved ?_) fun all => solved all.2.1
      exact h.isSolved_iff_eq.2 same.symm
  · rw [if_neg two] at decoded
    refine iff_of_false (fun same => h.rotate_ne face (code : Nat) ?_) fun all => two all.1
    rw [← same] at decoded ⊢
    exact decoded

/-- The code of a key is 2 exactly for the space key. -/
theorem keyCode_eq_two_iff {input : Int} {code : Fin 3} (key : keyCode input = some code) :
    code = 2 ↔ input = keySpace := by
  constructor
  · rintro rfl
    by_contra other
    unfold keyCode at key
    grind
  · rintro rfl
    exact (Option.some.inj key).symm

/-- A server whose pipe ends within a message: what it holds, against the complete
messages. -/
theorem listen_cutoff (draws : Nat → Draws) {s : ServerCube} (h : Reachable s.cube) (sent : List SentMessage)
    (last : SentMessage) {part : List Char8} (cut : CutOff part last.text) (buffer : List Char8)
    {chunks : List (List Char8)} (stream : chunks.flatten = (sent.map SentMessage.text).flatten ++ part) :
    ∃ whole after, serverStream draws s (sent.map SentMessage.text).flatten = some whole ∧
      serverThreadListenToPipe draws s buffer chunks = some after ∧
      (after.cube = whole.cube ↔ part.length = 2 ∧ last.input = keySpace ∧ isSolved whole.cube = 1 ∧
        ShufflesBack (draws whole.shuffles)) := by
  obtain ⟨face, code, faceNum, key, text⟩ := encodeUserInput_success last.accepted
  have cut' : CutOff part (messageLine face code) := text ▸ cut
  have records : ∀ line ∈ sent.map SentMessage.text, Terminated newline line :=
    List.forall_mem_map.2 fun m _ => m.framed.1
  obtain ⟨whole, served, reach⟩ := serverLine_messages draws h sent
  have lastRound : serverThreadListenToPipe draws s buffer chunks = serverLine draws whole part := by
    rw [serverThreadListenToPipe_eq, stream, serverStream,
      splitAfter_flatten_append records cut.nonempty (cut'.newline_notMem (messageLine_terminated face code)),
      List.foldlM_append, served, Option.bind_eq_bind, Option.bind_some, List.foldlM_cons]
    exact bind_pure _
  refine ⟨whole, ?_⟩
  rw [lastRound, serverStream, splitAfter_flatten records, served, ← keyCode_eq_two_iff key]
  rcases cutOff_messageLine cut' with rfl | rfl
  · obtain ⟨d, decoded, differ⟩ := decode_face reach face (draws whole.shuffles)
    obtain ⟨after, round, rfl⟩ := serverLine_cube decoded
    exact ⟨after, rfl, round, iff_of_false differ fun all => absurd all.1 (by simp)⟩
  · obtain ⟨d, decoded, same⟩ := decode_faceCode reach face code (draws whole.shuffles)
    obtain ⟨after, round, rfl⟩ := serverLine_cube decoded
    exact ⟨after, rfl, round, same.trans (and_iff_right rfl).symm⟩

/-! ## Both directions -/

/-- A relay passes a cut stream on as it is. -/
theorem relayLines_cutoff {lines : List (List Char8)} {part text : List Char8} (clean : ∀ line ∈ lines, nul ∉ line)
    (cleanText : nul ∉ text) (cut : CutOff part text) {chunks : List (List Char8)}
    (stream : chunks.flatten = lines.flatten ++ part) (relayBuffer : List Char8) :
    relayLines relayBuffer chunks = lines.flatten ++ part := by
  rw [← stream]
  apply relayLines_eq
  rw [stream]
  intro found
  rcases List.mem_append.1 found with found | found
  · obtain ⟨line, mem, inside⟩ := List.mem_flatten.1 found
    exact clean line mem inside
  · exact cleanText (cut.start.subset found)

/-- **When a cut message is without effect.** For all complete messages, any part of one
more, and any chunks: a client displays nothing but complete broadcasts exactly when only
the newline is missing of a cube that was broadcast before; and the server's cube is the
result of the complete commands exactly when only the newline is missing of a space
command on the solved cube whose shuffle leads back to it. -/
theorem cutoff_exact (relayBuffer buffer : List Char8) (chunks chunks' : List (List Char8)) :
    (∀ (broadcasts : List (Cube × (Fin 56 → Char8))) (last : Cube × (Fin 56 → Char8)),
      (∀ b ∈ broadcasts, b.1.Framed) → last.1.Framed →
      ∀ part : List Char8, CutOff part (fputs (List.ofFn (encode last.1 last.2))) →
      ∀ display : Cube, buffer.length = initialLineSize →
        chunks.flatten = (broadcasts.map fun b => fputs (List.ofFn (encode b.1 b.2))).flatten ++ part →
        chunks'.flatten = clientFacingThreadListenToPipe relayBuffer chunks →
        ∃ shown, displayLoop display (getlineLoop buffer chunks') = some shown ∧
          (DisplaysComplete display (broadcasts.map Prod.fst) shown ↔
            part.length = 54 ∧ ∃ b ∈ broadcasts, b.1.coloring = last.1.coloring)) ∧
    ∀ (draws : Nat → Draws) (c : Cube), Reachable c → ∀ (sent : List SentMessage) (last : SentMessage)
      (part : List Char8), CutOff part last.text →
        chunks.flatten = (sent.map SentMessage.text).flatten ++ part →
        chunks'.flatten = clientFacingThreadListenToSocket relayBuffer chunks →
        ∃ whole after, serverStream draws ⟨c, 0⟩ (sent.map SentMessage.text).flatten = some whole ∧
          serverThreadListenToPipe draws ⟨c, 0⟩ buffer chunks' = some after ∧
          (after.cube = whole.cube ↔ part.length = 2 ∧ last.input = keySpace ∧ isSolved whole.cube = 1 ∧
            ShufflesBack (draws whole.shuffles)) := by
  refine ⟨fun broadcasts last framed lastFramed part cut display size stream relayed => ?_,
    fun draws c reach sent last part cut stream relayed => ?_⟩
  · have each : ∀ c ∈ broadcasts.map Prod.fst, c.Framed := List.forall_mem_map.2 framed
    rw [fputs_encode lastFramed] at cut
    rw [map_fputs_encode framed] at stream
    have carried := relayLines_cutoff (List.forall_mem_map.2 fun c mem => nul_notMem_cubeLine (each c mem))
      (nul_notMem_cubeLine lastFramed) cut stream relayBuffer
    obtain ⟨shown, displayed, complete⟩ := display_cutoff each lastFramed cut display size (relayed.trans carried)
    refine ⟨shown, displayed, ?_⟩
    rw [complete]
    simp only [List.mem_map, exists_exists_and_eq_and]
  · have carried := relayLines_cutoff (List.forall_mem_map.2 fun m _ => m.framed.2) last.framed.2 cut stream relayBuffer
    exact listen_cutoff draws reach sent last cut buffer (relayed.trans carried)

/-- The solved cube twice, the second time without the newline; and a command cut after
its face. -/
theorem cutoff_exact_makeCube :
    (∃ shown, displayLoop makeCube (getlineLoop (List.replicate initialLineSize nul)
        [clientFacingThreadListenToPipe [] [cubeLine makeCube ++ (cubeLine makeCube).take 54]]) = some shown ∧
      DisplaysComplete makeCube [makeCube] shown) ∧
    ∃ whole after, serverStream (fun _ => default) ⟨makeCube, 0⟩ [] = some whole ∧
      serverThreadListenToPipe (fun _ => default) ⟨makeCube, 0⟩ []
        [clientFacingThreadListenToSocket [] [[digit 4]]] = some after ∧
      after.cube ≠ whole.cube := by
  have framed := reachable_makeCube.digitColors.framed
  have text : fputs (List.ofFn (encode makeCube fun _ => nul)) = cubeLine makeCube := fputs_encode framed _
  constructor
  · have cut : CutOff ((cubeLine makeCube).take 54) (fputs (List.ofFn (encode makeCube fun _ => nul))) := by
      rw [text]
      exact ⟨List.take_prefix .., by decide, by decide⟩
    have stream : [cubeLine makeCube ++ (cubeLine makeCube).take 54].flatten =
        ([(makeCube, fun _ => nul)].map fun b => fputs (List.ofFn (encode b.1 b.2))).flatten ++
          (cubeLine makeCube).take 54 := by
      rw [List.map_singleton, text, List.flatten_singleton, List.flatten_singleton]
    obtain ⟨shown, displayed, complete⟩ := (cutoff_exact [] (List.replicate initialLineSize nul)
      [cubeLine makeCube ++ (cubeLine makeCube).take 54] _).1 [(makeCube, fun _ => nul)] (makeCube, fun _ => nul)
      (by simpa using framed) framed _ cut makeCube List.length_replicate stream (List.flatten_singleton ..)
    refine ⟨shown, displayed, complete.2 ⟨?_, _, List.mem_singleton.2 rfl, rfl⟩⟩
    rw [List.length_take, cubeLine_length]
    rfl
  · obtain ⟨whole, after, served, listened, same⟩ := (cutoff_exact [] [] [[digit 4]] _).2 (fun _ => default) makeCube
      reachable_makeCube [] ⟨keyA, 4, fun _ => nul, _, rfl⟩ [digit 4] ⟨by decide, by decide, by decide⟩ rfl
      (List.flatten_singleton ..)
    exact ⟨whole, after, served, listened, fun equal => absurd (same.1 equal).1 (by decide)⟩

/-- A broadcast cut after one byte is displayed, and a command cut after one byte turns
the cube. -/
theorem cutoff_fails :
    (∃ shown, displayLoop makeCube (getlineLoop (List.replicate initialLineSize nul)
        [cubeLine makeCube ++ [digit 0]]) = some shown ∧ ¬ DisplaysComplete makeCube [makeCube] shown) ∧
    ∃ whole after, serverStream (fun _ => default) ⟨makeCube, 0⟩ [digit 4, digit 1, newline] = some whole ∧
      serverThreadListenToPipe (fun _ => default) ⟨makeCube, 0⟩ []
        [clientFacingThreadListenToSocket [] [[digit 4, digit 1, newline, digit 3]]] = some after ∧
      after.cube ≠ whole.cube := by
  have framed := reachable_makeCube.digitColors.framed
  constructor
  · have each : ∀ c ∈ [makeCube], c.Framed := by simpa using framed
    have cut : CutOff [digit 0] (cubeLine makeCube) := ⟨by decide, by decide, by decide⟩
    obtain ⟨shown, displayed, complete⟩ := display_cutoff each framed cut makeCube List.length_replicate
      (List.flatten_singleton ..)
    exact ⟨shown, displayed, fun all => absurd (complete.1 all).1 (by decide)⟩
  · have relayed : clientFacingThreadListenToSocket [] [[digit 4, digit 1, newline, digit 3]] =
        [digit 4, digit 1, newline, digit 3] := relayLines_eq (by decide) []
    let last : SentMessage := ⟨keyA, 3, fun _ => nul, _, rfl⟩
    have cut : CutOff [digit 3] last.text := ⟨by decide, by decide, by decide⟩
    rw [relayed]
    obtain ⟨whole, after, served, listened, same⟩ := listen_cutoff (fun _ => default) (s := ⟨makeCube, 0⟩)
      reachable_makeCube [⟨keyA, 4, fun _ => nul, _, rfl⟩] last cut [] (List.flatten_singleton ..)
    exact ⟨whole, after, served, listened, fun equal => absurd (same.1 equal).1 (by decide)⟩

end Rubiks

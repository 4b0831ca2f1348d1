import Rubiks.Start.Runs
import Rubiks.Logic.Lines
import Mathlib.Data.List.GetD

/-!
# The text form of a cube (`encoding.c`)

`encode` fills a 56-byte buffer: one character per square in face order, then a
newline and a NUL. `decode` reads 54 characters back. `char` is signed and eight
bits wide; `fputs` sends the bytes before the NUL, and the buffer `getline`
returns is the line followed by a NUL.
-/

namespace Rubiks

open Logic

abbrev Char8 := BitVec 8

/-- Conversion of an `int` to `char`. -/
def charOf (x : Int) : Char8 := BitVec.ofInt 8 x

def newline : Char8 := 10#8
def nul : Char8 := 0#8

/-- The decimal digit `n` as a character. -/
def digit (n : Nat) : Char8 := charOf (48 + n)

/-- The inner loop of `encode`: the squares of face `i`. -/
def encodeFace (toEncode : Cube) (result : Fin 56 → Char8) (i : FaceId) : Fin 56 → Char8 :=
  (List.finRange 9).foldl (fun result j =>
    Function.update result ⟨i.val * 9 + j.val, by omega⟩ (charOf (48 + (toEncode.faces i).colors j))) result

/-- The newline and NUL after the last square. -/
def encodeEnd (result : Fin 56 → Char8) : Fin 56 → Char8 :=
  Function.update (Function.update result 54 newline) 55 nul

/-- `encode`: the buffer after the call. -/
def encode (toEncode : Cube) (result : Fin 56 → Char8) : Fin 56 → Char8 :=
  encodeEnd ((List.finRange 6).foldl (encodeFace toEncode) result)

/-- `decode`: reading past the end of the buffer is undefined. -/
def decode (result : Cube) (toDecode : List Char8) : Option Cube :=
  (List.finRange 6).foldlM (fun result i =>
    (List.finRange 9).foldlM (fun result j => do
      let c ← toDecode[i.val * 9 + j.val]?
      some (result.setColor (i, j) (c.toInt - 48))) result) result

/-- `fputs`: the bytes of a string up to its NUL. -/
def fputs (s : List Char8) : List Char8 := s.takeWhile (· ≠ nul)

/-- The buffer `getline` hands out: the line and a terminating NUL. -/
def lineBuffer (line : List Char8) : List Char8 := line ++ [nul]

/-- Character `k` of an encoded cube. -/
def encodedChar (c : Cube) (k : Fin 56) : Char8 :=
  if h : k.val < 54 then charOf (48 + c.coloring (⟨k / 9, by omega⟩, ⟨k % 9, by omega⟩))
  else if k.val = 54 then newline else nul

/-- The order in which `encode` writes its buffer. -/
def encodeCells : List (Fin 56) :=
  ((List.finRange 6).flatMap fun i => (List.finRange 9).map fun j => ⟨i.val * 9 + j.val, by omega⟩) ++ [54, 55]

theorem encodedChar_square (c : Cube) (i : FaceId) (j : SquareId) :
    encodedChar c ⟨i.val * 9 + j.val, by omega⟩ = charOf (48 + (c.faces i).colors j) := by
  have row : (i.val * 9 + j.val) / 9 = i.val := by omega
  have column : (i.val * 9 + j.val) % 9 = j.val := by omega
  rw [encodedChar, dif_pos (by show i.val * 9 + j.val < 54; omega)]
  simp only [row, column]
  rfl

/-- The stores of `encode`, in order: the two loops, then the newline and the NUL. -/
def encodeWrites (toEncode : Cube) : List (Fin 56 × Char8) :=
  ((List.finRange 6).flatMap fun i => (List.finRange 9).map fun j =>
    (⟨i.val * 9 + j.val, by omega⟩, charOf (48 + (toEncode.faces i).colors j))) ++ [(54, newline), (55, nul)]

theorem encode_eq_overwrite (c : Cube) (buffer : Fin 56 → Char8) :
    encode c buffer = overwrite buffer (encodeWrites c) := by
  rw [encodeWrites, overwrite_append]
  simp only [overwrite, List.foldl_flatMap, List.foldl_map]
  rfl

theorem encodeWrites_eq (c : Cube) : encodeWrites c = encodeCells.map fun k => (k, encodedChar c k) := by
  simp only [encodeWrites, encodeCells, List.map_append, List.map_flatMap, List.map_map, Function.comp_def,
    encodedChar_square]
  rfl

/-- **`encode` overwrites its whole buffer**, so the result does not depend on
what the buffer held. -/
theorem encode_eq (c : Cube) (buffer : Fin 56 → Char8) : encode c buffer = encodedChar c := by
  have cover : ∀ k, k ∈ encodeCells := by decide
  rw [encode_eq_overwrite, encodeWrites_eq, overwrite_cells cover]

/-- `decode` on a long enough buffer paints all 54 squares. -/
theorem decode_eq (c : Cube) {text : List Char8} (long : 54 ≤ text.length) :
    decode c text =
      some (c.paint fun s => (text.getD (s.1.val * 9 + s.2.val) nul).toInt - 48) := by
  have read : ∀ (i : FaceId) (j : SquareId),
      text[i.val * 9 + j.val]? = some (text.getD (i.val * 9 + j.val) nul) := by
    intro i j
    have inRange : i.val * 9 + j.val < text.length := by omega
    rw [List.getElem?_eq_getElem inRange, List.getD_eq_getElem _ _ inRange]
  have squares : ∀ s : Square, s ∈ (List.finRange 6).flatMap fun i => (List.finRange 9).map fun j => (i, j) := by
    decide
  have pure_some : ∀ d : Cube, some d = (pure d : Option Cube) := fun _ => rfl
  simp only [decode, read, Option.bind_eq_bind, Option.bind_some, pure_some, List.foldlM_pure]
  rw [← overwrite_cells squares c.coloring fun s => (text.getD (s.1.val * 9 + s.2.val) nul).toInt - 48,
    ← Cube.foldl_setColor, List.map_flatMap, List.foldl_flatMap]
  simp only [List.map_map, List.foldl_map]
  rfl

/-! ## Colours that fit the text -/

/-- The value a `char` holds after the conversion of an `int`. -/
theorem charOf_toInt (x : Int) : (charOf x).toInt = x.bmod 256 := by
  rw [charOf, BitVec.toInt_ofInt]

theorem bmod_eq_self_iff {x : Int} : x.bmod 256 = x ↔ -128 ≤ x ∧ x ≤ 127 := by
  constructor
  · intro h
    have low := Int.le_bmod (x := x) (m := 256) (by decide)
    have high := Int.bmod_lt (x := x) (m := 256) (by decide)
    omega
  · rintro ⟨low, high⟩
    exact Int.bmod_eq_of_le (by omega) (by omega)

/-- Byte `9 * i + j` of an encoded cube is square `j` of face `i`. -/
theorem getD_encode (c : Cube) (buffer : Fin 56 → Char8) (s : Square) :
    (List.ofFn (encode c buffer)).getD (s.1.val * 9 + s.2.val) nul = charOf (48 + c.coloring s) := by
  obtain ⟨i, j⟩ := s
  have inRange : i.val * 9 + j.val < (List.ofFn (encode c buffer)).length := by
    rw [List.length_ofFn]
    omega
  rw [encode_eq] at inRange ⊢
  rw [List.getD_eq_getElem _ _ inRange, List.getElem_ofFn, encodedChar_square]
  rfl

/-- Decoding an encoded cube wraps each colour to a signed byte. -/
theorem decode_encode (c target : Cube) (buffer : Fin 56 → Char8) :
    decode target (List.ofFn (encode c buffer)) =
      some (target.paint fun s => (48 + c.coloring s).bmod 256 - 48) := by
  rw [decode_eq target (by rw [List.length_ofFn]; decide)]
  congr 2
  funext s
  rw [getD_encode, charOf_toInt]

/-- Every colour fits a `char` and none encodes to the NUL or the newline. -/
def Cube.Framed (c : Cube) : Prop :=
  ∀ s, -176 ≤ c.coloring s ∧ c.coloring s ≤ 79 ∧ c.coloring s ≠ -48 ∧ c.coloring s ≠ -38

/-- Every colour is one of the six face numbers. -/
def Cube.DigitColors (c : Cube) : Prop := ∀ s, 0 ≤ c.coloring s ∧ c.coloring s ≤ 5

theorem Cube.DigitColors.framed {c : Cube} (h : c.DigitColors) : c.Framed := by
  intro s
  have := h s
  omega

theorem Reachable.digitColors {c : Cube} (h : Reachable c) : c.DigitColors := h.coloring_range

theorem Cube.Framed.charOf {c : Cube} (h : c.Framed) (s : Square) :
    (charOf (48 + c.coloring s)).toInt = 48 + c.coloring s ∧ Rubiks.charOf (48 + c.coloring s) ≠ nul ∧
      Rubiks.charOf (48 + c.coloring s) ≠ newline := by
  obtain ⟨low, high, noNul, noNewline⟩ := h s
  have exactly : (Rubiks.charOf (48 + c.coloring s)).toInt = 48 + c.coloring s := by
    rw [charOf_toInt, bmod_eq_self_iff]
    omega
  refine ⟨exactly, fun char => ?_, fun char => ?_⟩
  · rw [char, show nul.toInt = 0 from rfl] at exactly
    omega
  · rw [char, show newline.toInt = 10 from rfl] at exactly
    omega

/-- The line that carries a cube: 54 characters and a newline. -/
def cubeLine (c : Cube) : List Char8 :=
  (List.ofFn fun k : Fin 54 => charOf (48 + c.coloring (⟨k / 9, by omega⟩, ⟨k % 9, by omega⟩))) ++ [newline]

theorem cubeLine_length (c : Cube) : (cubeLine c).length = 55 := by
  rw [cubeLine, List.length_append, List.length_ofFn, List.length_singleton]

theorem nul_notMem_cubeLine {c : Cube} (h : c.Framed) : nul ∉ cubeLine c := by
  intro mem
  rcases List.mem_append.1 mem with mem | mem
  · obtain ⟨k, char⟩ := List.mem_ofFn.1 mem
    exact (h.charOf _).2.1 char
  · exact absurd (List.mem_singleton.1 mem) (by decide)

theorem cubeLine_terminated {c : Cube} (h : c.Framed) : Terminated newline (cubeLine c) := by
  refine ⟨_, rfl, fun mem => ?_⟩
  obtain ⟨k, char⟩ := List.mem_ofFn.1 mem
  exact (h.charOf _).2.2 char

/-- `fputs` writes what stands before the first NUL. -/
theorem fputs_append_nul {line : List Char8} (h : nul ∉ line) (rest : List Char8) : fputs (line ++ nul :: rest) = line := by
  have whole : ∀ b ∈ line, decide (b ≠ nul) = true := by
    intro b mem
    exact decide_eq_true fun eq => h (eq ▸ mem)
  rw [fputs, List.takeWhile_append_of_pos whole]
  simp

/-- `fputs` of the buffer `getline` returned writes the line again. -/
theorem fputs_lineBuffer {line : List Char8} (h : nul ∉ line) : fputs (lineBuffer line) = line :=
  fputs_append_nul h []

/-- The buffer of `encode` is the line of the cube as `getline` would hand it out. -/
theorem ofFn_encode (c : Cube) (buffer : Fin 56 → Char8) : List.ofFn (encode c buffer) = lineBuffer (cubeLine c) := by
  rw [encode_eq]
  rfl

/-- An encoded cube is sent as its 55-byte line. -/
theorem fputs_encode {c : Cube} (h : c.Framed) (buffer : Fin 56 → Char8) :
    fputs (List.ofFn (encode c buffer)) = cubeLine c := by
  rw [ofFn_encode, fputs_lineBuffer (nul_notMem_cubeLine h)]

/-- **Decoding the line of a cube restores its 54 colours.** -/
theorem decode_cubeLine {c : Cube} (h : c.Framed) (d : Cube) :
    decode d (lineBuffer (cubeLine c)) = some (d.paint c.coloring) := by
  rw [← ofFn_encode c fun _ => nul, decode_encode]
  congr 2
  funext s
  rw [← charOf_toInt, (h.charOf s).1]
  omega

end Rubiks

import Rubiks.Server.Encoding

/-!
# `encode` and `decode` on arbitrary colours and bytes

A colour survives the text form exactly when it fits a signed byte after adding `'0'`;
any other comes back wrapped. Any 54 bytes survive the other way. `encode` stores each
of its 56 bytes once (`codec_exact`).
-/

namespace Rubiks

open Logic

theorem encodeWrites_cells (c : Cube) : (encodeWrites c).map Prod.fst = encodeCells := by
  rw [encodeWrites_eq, List.map_map]
  exact List.map_id _

/-- Each byte of the buffer is stored once. -/
theorem encodeCells_perm : encodeCells.Perm (List.finRange 56) := by
  rw [List.perm_ext_iff_of_nodup (by decide) (List.nodup_finRange 56)]
  exact fun k => iff_of_true (by revert k; decide) (List.mem_finRange k)

theorem charOf_toInt_sub (b : Char8) : charOf (48 + (b.toInt - 48)) = b := by
  rw [charOf, show 48 + (b.toInt - 48) = b.toInt by omega, BitVec.ofInt_toInt]

/-- Encoding a decoded text gives the text back. -/
theorem encode_decode {text : List Char8} (length : text.length = 54) {target d : Cube}
    (run : decode target text = some d) (buffer : Fin 56 → Char8) :
    List.ofFn (encode d buffer) = text ++ [newline, nul] := by
  rw [decode_eq target (by omega)] at run
  obtain rfl := Option.some.inj run
  have last : text ++ [newline, nul] = List.ofFn fun k : Fin 56 => (text ++ [newline, nul]).getD k nul := by
    apply List.ext_getElem
    · rw [List.length_append, length, List.length_ofFn]
      rfl
    · intro k inRange inRange'
      rw [List.getElem_ofFn, List.getD_eq_getElem _ _ inRange]
  rw [encode_eq, last]
  congr 1
  funext k
  unfold encodedChar
  split
  · rename_i square
    have index : k.val / 9 * 9 + k.val % 9 = k.val := by omega
    rw [Cube.coloring_paint]
    simp only [index]
    rw [charOf_toInt_sub, List.getD_append _ _ _ _ (by omega)]
  · rename_i beyond
    rw [List.getD_append_right _ _ _ _ (by omega), length]
    split
    · rename_i atEnd
      simp [atEnd]
    · have final : k.val = 55 := by omega
      simp [final]

/-- **The codec is exact in both directions.** -/
theorem codec_exact :
    (∀ (c target : Cube) (buffer : Fin 56 → Char8), ∃ d, decode target (List.ofFn (encode c buffer)) = some d ∧
      (∀ s, d.coloring s = (48 + c.coloring s).bmod 256 - 48) ∧ d.tables = target.tables ∧
      (d.coloring = c.coloring ↔ ∀ s, -176 ≤ c.coloring s ∧ c.coloring s ≤ 79)) ∧
    (∀ (target : Cube) (text : List Char8) (buffer : Fin 56 → Char8), text.length = 54 →
      ∃ d, decode target text = some d ∧ List.ofFn (encode d buffer) = text ++ [newline, nul]) ∧
    ∀ c : Cube, (∀ buffer, encode c buffer = overwrite buffer (encodeWrites c)) ∧
      ((encodeWrites c).map Prod.fst).Perm (List.finRange 56) := by
  refine ⟨fun c target buffer => ⟨_, decode_encode c target buffer, fun s => rfl, rfl, ?_⟩,
    fun target text buffer length => ?_, fun c => ⟨encode_eq_overwrite c, ?_⟩⟩
  · rw [Cube.coloring_paint, funext_iff]
    refine forall_congr' fun s => ?_
    have fits := bmod_eq_self_iff (x := 48 + c.coloring s)
    constructor
    · intro same
      have := fits.1 (by omega)
      omega
    · intro small
      have := fits.2 (by omega)
      omega
  · have long : 54 ≤ text.length := by omega
    have run := decode_eq target long
    exact ⟨_, run, encode_decode length run buffer⟩
  · rw [encodeWrites_cells]
    exact encodeCells_perm

/-- A text of 54 equal bytes. -/
theorem codec_exact_replicate : ∃ d, decode makeCube (List.replicate 54 (digit 9)) = some d ∧
    List.ofFn (encode d fun _ => nul) = List.replicate 54 (digit 9) ++ [newline, nul] :=
  codec_exact.2.1 makeCube (List.replicate 54 (digit 9)) (fun _ => nul) (by simp)

end Rubiks

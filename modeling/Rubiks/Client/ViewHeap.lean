import Rubiks.Start.HeapTurns
import Rubiks.Client.SingleDevice

/-!
# `rubiks_view` on the heap

The whole of `main`: make a cube, shuffle it, draw the current face before each
`getch`, obey the key, free the cube after a `q`. On the heap it draws what the
program on values shows, never steps outside its blocks, and returns all of them.
-/

namespace Rubiks.OnHeap

open Logic Prog

/-- The local variables of `main`; `shuffles` counts its calls of `shuffle`. -/
structure ViewLocals where
  rubiksCube : Address
  currentFace : Int
  shuffles : Nat

/-- The colours the drawing loops read, row by row. -/
def drawnColors (cube_ : Address) (face : Int) : Program (List Int) := do
  let rows ← (List.finRange 3).mapM fun row => (List.finRange 3).mapM fun col => do
    loadColor (← loadFace cube_ face) ((row : Nat) * 3 + (col : Nat))
  pure rows.flatten

section Main

variable (A : Allocator Struct) (draws : Nat → Draws)

/-- One key of the loop. -/
def viewKey (s : ViewLocals) (input : Int) : Program ViewLocals :=
  if input = keyA then do
    rotate A s.rubiksCube s.currentFace 1
    pure s
  else if input = keyD then do
    rotate A s.rubiksCube s.currentFace 0
    pure s
  else if FaceKey input then pure { s with currentFace := input - 48 }
  else if input = keySpace then do
    if (← isSolved s.rubiksCube) ≠ 0 then
      shuffle A s.rubiksCube minDepth maxDepth (draws s.shuffles)
      pure { s with shuffles := s.shuffles + 1 }
    else
      freeCube s.rubiksCube
      let rubiksCube ← makeCube A
      pure { s with rubiksCube := rubiksCube }
  else pure s

/-- What `main`'s loop leaves: its variables, the colours drawn in each round, and
whether a `q` ended it; without one it waits in `getch`. -/
structure ViewRun where
  locals : ViewLocals
  drawn : List (List Int)
  quit : Bool

/-- The loop on the keys pressed. -/
def viewLoop (s : ViewLocals) : List Int → Program ViewRun
  | [] => do
    let colors ← drawnColors s.rubiksCube s.currentFace
    pure ⟨s, [colors], false⟩
  | input :: keys => do
    let colors ← drawnColors s.rubiksCube s.currentFace
    let s ← viewKey A draws s input
    if input = keyQ ∨ input = keyUpperQ then pure ⟨s, [colors], true⟩
    else
      let run ← viewLoop s keys
      pure { run with drawn := colors :: run.drawn }

/-- `main`. -/
def viewMain (keys : List Int) : Program ViewRun := do
  let rubiksCube ← makeCube A
  shuffle A rubiksCube minDepth maxDepth (draws 0)
  let run ← viewLoop A draws ⟨rubiksCube, 0, 1⟩ keys
  if run.quit then freeCube run.locals.rubiksCube
  pure run

end Main

/-! ## The program on values -/

/-- The picture of a state: the colours of its current face. -/
def shown (s : View) : Option (List Int) := do
  let f ← index 6 s.currentFace
  some ((List.finRange 9).map (s.rubiksCube.faces f).colors)

/-- The pictures of the states from `s` on, one before each key read. -/
def shownLoop (draws : Nat → Draws) (s : View) : List Int → Option (List (List Int))
  | [] => do
    let colors ← shown s
    some [colors]
  | input :: keys => do
    let colors ← shown s
    let s ← Rubiks.viewKey draws s input
    if input = keyQ ∨ input = keyUpperQ then some [colors]
    else
      let rest ← shownLoop draws s keys
      some (colors :: rest)

/-- A state of `rubiks_view`: a reachable cube and a face in range. -/
structure Proper (s : View) : Prop where
  reachable : Reachable s.rubiksCube
  face : ∃ f : FaceId, s.currentFace = (f : Nat)

/-- The variables and the heap of `main` in the state `v`. -/
def Holds (base : Blocks Struct) (s : ViewLocals) (v : View) (blocks : Blocks Struct) : Prop :=
  ∃ L, s = ⟨L .cube, v.currentFace, v.shuffles⟩ ∧ CubeAt base L v.rubiksCube blocks

section Refinement

variable {A : Allocator Struct} {limit : Nat} {h : Heap Struct} {base : Blocks Struct} {draws : Nat → Draws}
  {s : ViewLocals} {v : View}

theorem drawnColors_spec {L : Part → Address} {c : Cube} {face : Int} {f : FaceId} (inRange : index 6 face = some f)
    (cube : CubeAt base L c h.blocks) : wp A limit (drawnColors (L .cube) face)
      (fun colors h' => colors = (List.finRange 9).map (c.faces f).colors ∧ h' = h) h := by
  have squares : ∀ row col : Fin 3,
      index 9 ((row : Nat) * 3 + (col : Nat)) = some ⟨row * 3 + col, by omega⟩ := by decide
  have each : ∀ row col : Fin 3, wp A limit (do
      loadColor (← loadFace (L .cube) face) ((row : Nat) * 3 + (col : Nat)))
      (fun v h' => v = (c.faces f).colors ⟨row * 3 + col, by omega⟩ ∧ h' = h) h := fun row col =>
    wp_bind (wp_loadFace inRange (cube.inside .cube trivial) rfl
      (wp_loadColor (squares row col) (cube.inside (.face f) trivial) rfl ⟨rfl, rfl⟩))
  refine wp_bind (wp_mono (wp_mapM (List.finRange 3) fun row => wp_mapM (List.finRange 3) (each row)) ?_)
  rintro rows h' ⟨rfl, rfl⟩
  exact wp_pure ⟨rfl, rfl⟩

/-- Each key does on the heap what it does on values, from a proper state to one. -/
theorem viewKey_spec (A : Allocator Struct) (draws : Nat → Draws) (proper : Proper v) (room : live base + 62 ≤ limit)
    (input : Int) : ∃ v', Rubiks.viewKey draws v input = some v' ∧ Proper v' ∧
      ∀ s h, Holds base s v h.blocks →
        wp A limit (viewKey A draws s input) (fun s' h' => Holds base s' v' h'.blocks) h := by
  obtain ⟨f, face⟩ := proper.face
  have turns : ∀ direction, ∃ c, Rubiks.rotate v.rubiksCube v.currentFace direction = some c ∧
      Proper { v with rubiksCube := c } ∧ ∀ s h, Holds base s v h.blocks →
        wp A limit (do rotate A s.rubiksCube s.currentFace direction; pure s)
          (fun s' h' => Holds base s' { v with rubiksCube := c } h'.blocks) h := by
    intro direction
    obtain ⟨c, turned, reach⟩ := proper.reachable.op (.rotate f direction)
    rw [Op.run, ← face] at turned
    refine ⟨c, turned, ⟨reach, f, face⟩, ?_⟩
    rintro _ h ⟨L, rfl, cube⟩
    exact wp_bind (wp_mono (rotate_spec turned cube room) fun _ h' cube => wp_pure ⟨L, rfl, cube⟩)
  unfold Rubiks.viewKey viewKey
  by_cases a : input = keyA
  · obtain ⟨c, turned, proper', run⟩ := turns 1
    simp only [if_pos a, turned]
    exact ⟨_, rfl, proper', run⟩
  by_cases d : input = keyD
  · obtain ⟨c, turned, proper', run⟩ := turns 0
    simp only [if_neg a, if_pos d, turned]
    exact ⟨_, rfl, proper', run⟩
  simp only [if_neg a, if_neg d]
  by_cases digit : FaceKey input
  · simp only [if_pos digit]
    obtain ⟨low, high⟩ := digit
    refine ⟨_, rfl, ⟨proper.reachable, ⟨(input - 48).toNat, by omega⟩, by dsimp only; omega⟩, ?_⟩
    rintro _ h ⟨L, rfl, cube⟩
    exact wp_pure ⟨L, rfl, cube⟩
  simp only [if_neg digit]
  by_cases space : input = keySpace
  · simp only [if_pos space]
    by_cases solved : Rubiks.isSolved v.rubiksCube ≠ 0
    · obtain ⟨c, shuffled, reach⟩ := proper.reachable.op (.shuffle defaultRange (draws v.shuffles))
      rw [if_pos solved]
      refine ⟨{ v with rubiksCube := c, shuffles := v.shuffles + 1 },
        Option.bind_eq_some_iff.2 ⟨c, shuffled, rfl⟩, ⟨reach, f, face⟩, ?_⟩
      rintro _ h ⟨L, rfl, cube⟩
      refine wp_bind (wp_mono (isSolved_spec cube) ?_)
      rintro _ _ ⟨rfl, rfl⟩
      rw [if_pos solved]
      exact wp_bind (wp_mono (shuffle_spec shuffled cube room) fun _ h' cube => wp_pure ⟨L, rfl, cube⟩)
    · rw [if_neg solved]
      refine ⟨_, rfl, ⟨reachable_makeCube, f, face⟩, ?_⟩
      rintro _ h ⟨L, rfl, cube⟩
      refine wp_bind (wp_mono (isSolved_spec cube) ?_)
      rintro _ _ ⟨rfl, rfl⟩
      rw [if_neg solved]
      refine wp_bind (wp_mono (freeCube_spec cube) fun _ h1 freed => ?_)
      have enough : live h1.blocks + 31 ≤ limit := by
        rw [freed]
        exact le_trans (by gcongr; decide) room
      refine wp_bind (wp_mono (makeCube_spec enough) ?_)
      rintro _ h2 ⟨L', rfl, remade⟩
      rw [freed] at remade
      exact wp_pure ⟨L', rfl, remade⟩
  · simp only [if_neg space]
    refine ⟨v, rfl, proper, ?_⟩
    rintro _ h ⟨L, rfl, cube⟩
    exact wp_pure ⟨L, rfl, cube⟩

/-- The loop draws the pictures of the program on values and ends in its state. -/
theorem viewLoop_spec (A : Allocator Struct) (draws : Nat → Draws) (keys : List Int) (proper : Proper v)
    (room : live base + 62 ≤ limit) : ∃ pictures v', shownLoop draws v keys = some pictures ∧
      Rubiks.viewLoop draws v keys = some v' ∧ Proper v' ∧ ∀ s h, Holds base s v h.blocks →
        wp A limit (viewLoop A draws s keys) (fun run h' => run.drawn = pictures ∧
          (run.quit = true ↔ keyQ ∈ keys ∨ keyUpperQ ∈ keys) ∧ Holds base run.locals v' h'.blocks) h := by
  induction keys generalizing v with
  | nil =>
    obtain ⟨f, face⟩ := proper.face
    have inRange : index 6 v.currentFace = some f := index_eq_some_iff.2 face
    refine ⟨_, v, by simp only [shownLoop, shown, inRange]; rfl, rfl, proper, ?_⟩
    rintro _ h ⟨L, rfl, cube⟩
    refine wp_bind (wp_mono (drawnColors_spec inRange cube) ?_)
    rintro _ _ ⟨rfl, rfl⟩
    exact wp_pure ⟨rfl, by simp, L, rfl, cube⟩
  | cons input keys ih =>
    obtain ⟨f, face⟩ := proper.face
    have inRange : index 6 v.currentFace = some f := index_eq_some_iff.2 face
    have picture : shown v = some ((List.finRange 9).map (v.rubiksCube.faces f).colors) := by
      simp only [shown, inRange]
      rfl
    obtain ⟨v', key, proper', keyed⟩ := viewKey_spec A draws proper room input
    -- the round up to the test for `q`
    have round : ∀ s h, Holds base s v h.blocks → wp A limit (drawnColors s.rubiksCube s.currentFace)
        (fun colors h' => colors = (List.finRange 9).map (v.rubiksCube.faces f).colors ∧
          wp A limit (viewKey A draws s input) (fun s' h'' => Holds base s' v' h''.blocks) h') h := by
      intro s h same
      have next := keyed s h same
      obtain ⟨L, rfl, cube⟩ := same
      refine wp_mono (drawnColors_spec inRange cube) ?_
      rintro _ _ ⟨rfl, rfl⟩
      exact ⟨rfl, next⟩
    by_cases quit : input = keyQ ∨ input = keyUpperQ
    · refine ⟨[(List.finRange 9).map (v.rubiksCube.faces f).colors], v', ?_, ?_, proper', fun s h same => ?_⟩
      · simp only [shownLoop, picture, key, if_pos quit, Option.bind_eq_bind, Option.bind_some]
      · simp only [Rubiks.viewLoop, key, if_pos quit, Option.bind_eq_bind, Option.bind_some]
      · refine wp_bind (wp_mono (round s h same) ?_)
        rintro _ h1 ⟨rfl, keyed⟩
        refine wp_bind (wp_mono keyed fun s' h' same => ?_)
        rw [if_pos quit]
        refine wp_pure ⟨rfl, iff_of_true rfl ?_, same⟩
        rcases quit with rfl | rfl
        · exact .inl List.mem_cons_self
        · exact .inr List.mem_cons_self
    · obtain ⟨pictures, v'', drawn, run, proper'', looped⟩ := ih proper'
      refine ⟨(List.finRange 9).map (v.rubiksCube.faces f).colors :: pictures, v'', ?_, ?_, proper'', fun s h same => ?_⟩
      · simp only [shownLoop, picture, key, drawn, if_neg quit, Option.bind_eq_bind, Option.bind_some]
      · simp only [Rubiks.viewLoop, key, run, if_neg quit, Option.bind_eq_bind, Option.bind_some]
      · refine wp_bind (wp_mono (round s h same) ?_)
        rintro _ h1 ⟨rfl, keyed⟩
        refine wp_bind (wp_mono keyed fun s' h' same => ?_)
        rw [if_neg quit]
        refine wp_bind (wp_mono (looped s' h' same) ?_)
        rintro result h2 ⟨rfl, ended, same⟩
        simp only [not_or] at quit
        refine wp_pure ⟨rfl, ended.trans ?_, same⟩
        rw [List.mem_cons, List.mem_cons, or_iff_right (Ne.symm quit.1), or_iff_right (Ne.symm quit.2)]

/-- **`rubiks_view` is memory safe and returns what it allocates.** Whatever the
keys, the draws and the answers of `malloc`, nothing undefined happens but the store
through a null pointer from `malloc`. Whenever the run goes through, `main` has drawn
the pictures of the program on values and, once a `q` has ended its loop, has left no
block behind; before that it owns one cube, with the value the keys give. It goes
through if `malloc` grants requests while fewer than 62 blocks are live besides those
of others. -/
theorem viewMain_memory (A : Allocator Struct) (draws : Nat → Draws) (keys : List Int) (base : Blocks Struct)
    (requests limit : Nat) (room : live base + 62 ≤ limit) :
    ∃ start pictures v, Rubiks.shuffle Rubiks.makeCube minDepth maxDepth (draws 0) = some start ∧
      shownLoop draws ⟨start, 0, 1⟩ keys = some pictures ∧ Rubiks.viewLoop draws ⟨start, 0, 1⟩ keys = some v ∧
      viewMain A draws keys ⟨base, requests⟩ ≠ .error .undefined ∧
      (∀ run h', viewMain A draws keys ⟨base, requests⟩ = .ok (run, h') →
        run.drawn = pictures ∧ (run.quit = true ↔ keyQ ∈ keys ∨ keyUpperQ ∈ keys) ∧
        if run.quit then h'.blocks = base else Holds base run.locals v h'.blocks) ∧
      (¬ A.Refuses limit → ∃ run h', viewMain A draws keys ⟨base, requests⟩ = .ok (run, h')) := by
  obtain ⟨start, shuffled, reach⟩ := reachable_makeCube.op (.shuffle defaultRange (draws 0))
  obtain ⟨pictures, v, drawn, run, -, looped⟩ := viewLoop_spec A draws keys (v := ⟨start, 0, 1⟩) ⟨reach, 0, rfl⟩ room
  have main : wp A limit (viewMain A draws keys) (fun run h' => run.drawn = pictures ∧
      (run.quit = true ↔ keyQ ∈ keys ∨ keyUpperQ ∈ keys) ∧
      if run.quit then h'.blocks = base else Holds base run.locals v h'.blocks) ⟨base, requests⟩ := by
    refine wp_bind (wp_mono (makeCube_spec (le_trans (by gcongr; decide) room)) ?_)
    rintro _ h1 ⟨L, rfl, cube⟩
    refine wp_bind (wp_mono (shuffle_spec shuffled cube room) fun _ h2 cube => ?_)
    refine wp_bind (wp_mono (looped _ h2 ⟨L, rfl, cube⟩) ?_)
    rintro result h3 ⟨rfl, ended, same⟩
    cases quit : result.quit with
    | false =>
      refine wp_bind (wp_pure (wp_pure ⟨rfl, ended, ?_⟩))
      rw [quit]
      exact same
    | true =>
      obtain ⟨M, locals, cube⟩ := same
      have own : result.locals.rubiksCube = M .cube := by rw [locals]
      refine wp_bind ?_
      rw [own]
      refine wp_mono (freeCube_spec cube) fun _ h4 freed => wp_pure ⟨rfl, ended, ?_⟩
      rw [quit]
      exact freed
  refine ⟨start, pictures, v, shuffled, drawn, run, main.defined, fun result h' ends => main.ok ends, fun grants => ?_⟩
  obtain ⟨result, h', ends, -⟩ := main.run grants
  exact ⟨result, h', ends⟩

/-- A turn, a face key, the reset and a quit leave the heap empty. -/
theorem viewMain_memory_first_fit : ∃ run h',
    viewMain (firstFit Struct 62) (fun _ => default) [keyD, 50, keySpace, keyQ] ⟨fun _ => none, 0⟩ = .ok (run, h') ∧
      h'.blocks = fun _ => none := by
  obtain ⟨start, pictures, v, -, -, -, -, result, runs⟩ := viewMain_memory (firstFit Struct 62) (fun _ => default)
    [keyD, 50, keySpace, keyQ] (fun _ => none) 0 62 (by simp)
  obtain ⟨run, h', ends⟩ := runs (firstFit_grants Struct 62)
  obtain ⟨-, quit, left⟩ := result run h' ends
  rw [if_pos (quit.2 (.inl (by simp)))] at left
  exact ⟨run, h', ends, left⟩

end Refinement

end Rubiks.OnHeap

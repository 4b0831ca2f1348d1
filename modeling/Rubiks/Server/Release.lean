import Rubiks.Start.HeapCube

/-!
# What the release functions give back

`free_client_thread_args` and `free_echo_server` pass the cube to `free` and not to
`free_cube`: its faces and their neighbours stay allocated, with no pointer left to
them. `free_server_thread_listen_to_pipe_args` frees the server all listeners share,
so that it can be called for one of them only.
-/

namespace Rubiks.OnHeap

open Logic Prog

def clientThreadArgsAt (p : Address) : Program ClientThreadArgsBlock := do
  match ← read p with
  | .clientThreadArgs s => pure s
  | _ => defined none

def echoServerAt (p : Address) : Program EchoServerBlock := do
  match ← read p with
  | .echoServer s => pure s
  | _ => defined none

def listenArgsAt (p : Address) : Program ListenArgsBlock := do
  match ← read p with
  | .listenArgs s => pure s
  | _ => defined none

/-- `sem_destroy`: the semaphore's memory is the caller's. -/
def semDestroy (p : Address) : Program Unit := do
  match ← read p with
  | .sem _ => write p (.sem none)
  | _ => defined none

def freeClientThreadArgs (threadArgs : Address) : Program Unit := do
  free (← defined (← clientThreadArgsAt threadArgs).cubeFaceIdPtr)
  free (← defined (← clientThreadArgsAt threadArgs).cubeStateToDisplay)
  semDestroy (← defined (← clientThreadArgsAt threadArgs).updateViewSemaphore)
  free threadArgs

/-- `free_echo_server`, less the descriptors it closes. -/
def freeEchoServer (server : Address) : Program Unit := do
  free (← defined (← echoServerAt server).globalCubeState)
  free (← defined (← echoServerAt server).globalCubeStateLock)
  free (← defined (← echoServerAt server).broadcastMessageReady)
  free server

def freeServerThreadListenToPipeArgs (threadArgs : Address) : Program Unit := do
  free (← defined (← listenArgsAt threadArgs).server)
  free threadArgs

/-- A cube, two blocks it is shared with and the struct that points at the three. -/
inductive Owned where
  | struct
  | left
  | right
  | part (o : Part)
  deriving DecidableEq, Fintype

/-- The contents of the blocks of a struct that owns a cube. -/
def ownedContents (K : Owned → Address) (struct left right : Struct) (c : Cube) : Owned → Struct
  | .struct => struct
  | .left => left
  | .right => right
  | .part o => contents (fun o => K (.part o)) c o

/-- The parts of the cube that no release function frees. -/
def Orphans : Set Owned := {k | ∃ o, k = .part o ∧ o ≠ .cube}

theorem orphans_encard : Orphans.encard = 30 := by
  have finite : Orphans = ((Finset.univ : Finset Owned).filter fun k => ∃ o : Part, k = .part o ∧ o ≠ .cube :
      Finset Owned) := by
    ext k
    simp [Orphans]
  rw [finite, Set.encard_coe_eq_coe_finsetCard]
  rfl

variable {A : Allocator Struct} {limit : Nat} {h : Heap Struct} {base : Blocks Struct} {K : Owned → Address} {c : Cube}

theorem clientThreadArgsAt_eq {p : Address} {s : ClientThreadArgsBlock}
    (found : h.blocks p = some (.clientThreadArgs s)) : clientThreadArgsAt p h = .ok (s, h) := by
  rw [clientThreadArgsAt, bind_ok (read_eq found)]
  rfl

theorem echoServerAt_eq {p : Address} {s : EchoServerBlock} (found : h.blocks p = some (.echoServer s)) :
    echoServerAt p h = .ok (s, h) := by
  rw [echoServerAt, bind_ok (read_eq found)]
  rfl

/-- The struct, the block `left` and the cube's own block are gone. -/
theorem left_cube_struct : ((Set.univ \ {Owned.left}) \ {Owned.part .cube}) \ {Owned.struct} =
    Insert.insert Owned.right Orphans := by
  ext k
  cases k <;> simp [Orphans]

theorem semDestroy_eq {p : Address} {n : Option Nat} (found : h.blocks p = some (.sem n)) :
    semDestroy p h = .ok ((), h.store p (.sem none)) := by
  rw [semDestroy, bind_ok (read_eq found)]
  exact write_eq (by rw [found]; simp)

/-- `free_client_thread_args` leaves the semaphore and the cube's 30 other blocks. -/
theorem freeClientThreadArgs_spec {v : Option Int} {n : Option Nat}
    (placed : Placed base K (ownedContents K (.clientThreadArgs ⟨some (K .left), some (K (.part .cube)),
      some (K .right)⟩) (.int v) (.sem n) c) Set.univ h.blocks) :
    wp A limit (freeClientThreadArgs (K .struct)) (fun _ h' => Placed base K
      (Function.update (ownedContents K (.clientThreadArgs ⟨some (K .left), some (K (.part .cube)),
        some (K .right)⟩) (.int v) (.sem n) c) .right (.sem none)) (Insert.insert .right Orphans) h'.blocks) h := by
  have args : ∀ {S : Set Owned} {x h'}, Placed base K x S h'.blocks → Owned.struct ∈ S →
      x .struct = .clientThreadArgs ⟨some (K .left), some (K (.part .cube)), some (K .right)⟩ →
      clientThreadArgsAt (K .struct) h' = .ok (⟨some (K .left), some (K (.part .cube)), some (K .right)⟩, h') := by
    intro S x h' placed mem same
    exact clientThreadArgsAt_eq (by rw [placed.inside _ mem, same])
  refine wp_bind (wp_of_eq (args placed trivial rfl) (wp_bind (wp_defined rfl (wp_bind ?_))))
  refine wp_free placed trivial fun h1 placed => ?_
  refine wp_bind (wp_of_eq (args placed (by simp) rfl) (wp_bind (wp_defined rfl (wp_bind ?_))))
  refine wp_free placed (by simp) fun h2 placed => ?_
  refine wp_bind (wp_of_eq (args placed (by simp) rfl) (wp_bind (wp_defined rfl (wp_bind ?_))))
  refine wp_of_eq (semDestroy_eq (placed.inside .right (by simp))) ?_
  refine wp_free (placed.update (k := .right) (by simp) (.sem none)) (by simp) fun h3 placed => ?_
  rwa [left_cube_struct] at placed

/-- `free_echo_server` leaves the cube's 30 other blocks. -/
theorem freeEchoServer_spec {n : Option Nat}
    (placed : Placed base K (ownedContents K (.echoServer ⟨some (K (.part .cube)), some (K .left), some (K .right)⟩)
      .mutex (.sem n) c) Set.univ h.blocks) :
    wp A limit (freeEchoServer (K .struct)) (fun _ h' => Placed base K
      (ownedContents K (.echoServer ⟨some (K (.part .cube)), some (K .left), some (K .right)⟩) .mutex (.sem n) c)
      Orphans h'.blocks) h := by
  have server : ∀ {S : Set Owned} {h'}, Placed base K
      (ownedContents K (.echoServer ⟨some (K (.part .cube)), some (K .left), some (K .right)⟩) .mutex (.sem n) c)
      S h'.blocks → Owned.struct ∈ S →
      echoServerAt (K .struct) h' = .ok (⟨some (K (.part .cube)), some (K .left), some (K .right)⟩, h') :=
    fun placed mem => echoServerAt_eq (placed.inside _ mem)
  refine wp_bind (wp_of_eq (server placed trivial) (wp_bind (wp_defined rfl (wp_bind ?_))))
  refine wp_free placed trivial fun h1 placed => ?_
  refine wp_bind (wp_of_eq (server placed (by simp)) (wp_bind (wp_defined rfl (wp_bind ?_))))
  refine wp_free placed (by simp) fun h2 placed => ?_
  refine wp_bind (wp_of_eq (server placed (by simp)) (wp_bind (wp_defined rfl (wp_bind ?_))))
  refine wp_free placed (by simp) fun h3 placed => ?_
  refine wp_free placed (by simp) fun h4 placed => ?_
  have left : (((Set.univ \ {Owned.part .cube}) \ {Owned.left}) \ {Owned.right}) \ {Owned.struct} = Orphans := by
    ext k
    cases k <;> simp [Orphans]
  rwa [left] at placed

/-- The faces and neighbours of a cube that is gone: each is as it was, only blocks of
others point at a face, and only they and the face itself at its neighbours. -/
structure Lost (base : Blocks Struct) (K : Owned → Address) (before after : Blocks Struct) : Prop where
  kept : ∀ k ∈ Orphans, after (K k) = before (K k)
  faces : ∀ a b f, after a = some b → K (.part (.face f)) ∈ b.pointers → base a = some b
  neighbours : ∀ a b f ind, after a = some b → K (.part (.adjacentFace f ind)) ∈ b.pointers →
    base a = some b ∨ a = K (.part (.face f))

/-- Where only the orphans and a semaphore are left, the orphans are lost. -/
theorem lost_of_placed {x y : Owned → Struct} {S : Set Owned} {blocks blocks' : Blocks Struct}
    (before : Placed base K x Set.univ blocks) (after : Placed base K y S blocks') (orphans : Orphans ⊆ S)
    (left : S ⊆ Insert.insert .right Orphans) (sem : (y .right).pointers = [])
    (same : ∀ k ∈ Orphans, y k = x k) (parts : ∀ o, x (.part o) = contents (fun o => K (.part o)) c o) :
    Lost base K blocks blocks' := by
  -- a block with a pointer is a block of others or one of the faces
  have pointing : ∀ a b p, blocks' a = some b → p ∈ b.pointers → base a = some b ∨
      ∃ f, a = K (.part (.face f)) ∧ ∃ ind, p = K (.part (.adjacentFace f ind)) := by
    intro a b p alive points
    by_cases placed : ∃ k ∈ S, a = K k
    · right
      obtain ⟨k, mem, rfl⟩ := placed
      rw [after.inside k mem] at alive
      cases alive
      rcases left mem with rfl | orphan
      · rw [sem] at points
        cases points
      · rw [same k orphan] at points
        obtain ⟨o, rfl, other⟩ := orphan
        rw [parts o] at points
        cases o with
        | cube => exact absurd rfl other
        | face f =>
          obtain ⟨ind, -, points⟩ := List.mem_filterMap.1 points
          cases points
          exact ⟨f, rfl, ind, rfl⟩
        | adjacentFace f ind => cases points
    · simp only [not_exists, not_and] at placed
      exact .inl ((after.outside a placed).symm.trans alive)
  refine ⟨fun k mem => ?_, fun a b f alive points => ?_, fun a b f ind alive points => ?_⟩
  · rw [after.inside _ (orphans mem), before.inside _ trivial, same _ mem]
  · refine (pointing a b _ alive points).resolve_right ?_
    rintro ⟨g, -, ind, eq⟩
    cases before.injective trivial trivial eq
  · refine (pointing a b _ alive points).imp_right ?_
    rintro ⟨g, own, ind', eq⟩
    cases before.injective trivial trivial eq
    exact own

/-- **The release functions lose the faces.** Whatever the client's cube holds by
then, `free_client_thread_args` gives back three of its 34 blocks: the semaphore,
destroyed, and the 30 blocks of faces and neighbours stay. `free_echo_server` gives
back four of 34. No block but those of others points at the faces that are left. -/
theorem release_leaks {base : Blocks Struct} {K : Owned → Address} {c : Cube} {n : Option Nat} {h : Heap Struct} :
    (∀ v : Option Int,
      Placed base K (ownedContents K (.clientThreadArgs ⟨some (K .left), some (K (.part .cube)), some (K .right)⟩)
        (.int v) (.sem n) c) Set.univ h.blocks →
      ∃ h', freeClientThreadArgs (K .struct) h = .ok ((), h') ∧
        Placed base K (Function.update (ownedContents K (.clientThreadArgs ⟨some (K .left), some (K (.part .cube)),
          some (K .right)⟩) (.int v) (.sem n) c) .right (.sem none)) (Insert.insert .right Orphans) h'.blocks ∧
        live h'.blocks = live base + 31 ∧ Lost base K h.blocks h'.blocks) ∧
    (Placed base K (ownedContents K (.echoServer ⟨some (K (.part .cube)), some (K .left), some (K .right)⟩)
        .mutex (.sem n) c) Set.univ h.blocks →
      ∃ h', freeEchoServer (K .struct) h = .ok ((), h') ∧
        Placed base K (ownedContents K (.echoServer ⟨some (K (.part .cube)), some (K .left), some (K .right)⟩)
          .mutex (.sem n) c) Orphans h'.blocks ∧
        live h'.blocks = live base + 30 ∧ Lost base K h.blocks h'.blocks) := by
  refine ⟨fun v placed => ?_, fun placed => ?_⟩
  · obtain ⟨_, h', freed, rest⟩ := (freeClientThreadArgs_spec placed).run (firstFit_grants Struct 0)
    refine ⟨h', freed, rest, ?_,
      lost_of_placed placed rest (Set.subset_insert _ _) subset_rfl rfl ?_ fun o => rfl⟩
    · have right : Owned.right ∉ Orphans := by simp [Orphans]
      rw [rest.live_eq, Set.encard_insert_of_notMem right, orphans_encard]
      rfl
    · rintro _ ⟨o, rfl, -⟩
      rfl
  · obtain ⟨_, h', freed, rest⟩ := (freeEchoServer_spec placed).run (firstFit_grants Struct 0)
    refine ⟨h', freed, rest, ?_,
      lost_of_placed placed rest subset_rfl (Set.subset_insert _ _) rfl (fun _ _ => rfl) fun o => rfl⟩
    rw [rest.live_eq, orphans_encard]

/-- Owners of a solved cube, alone on the heap: of 34 blocks 31 and 30 stay, and no
block points at a face. -/
theorem release_leaks_alone : ∃ K : Owned → Address,
    (∃ h h', freeClientThreadArgs (K .struct) h = .ok ((), h') ∧ live h.blocks = 34 ∧ live h'.blocks = 31 ∧
      h'.blocks (K .right) = some (.sem none) ∧
      ∀ a b f, h'.blocks a = some b → K (.part (.face f)) ∉ b.pointers) ∧
    ∃ h h', freeEchoServer (K .struct) h = .ok ((), h') ∧ live h.blocks = 34 ∧ live h'.blocks = 30 ∧
      ∀ a b f, h'.blocks a = some b → K (.part (.face f)) ∉ b.pointers := by
  obtain ⟨K, injective⟩ : ∃ K : Owned → Address, Function.Injective K :=
    ⟨fun k => (Fintype.equivFin Owned k : Address),
      fun k k' same => (Fintype.equivFin Owned).injective (Fin.ext same)⟩
  have all : ∀ x : Owned → Struct, live (Function.extend K (fun k => some (x k)) fun _ => none) = 34 := by
    intro x
    rw [(Placed.of_injective injective x).live_eq, live_empty, Set.encard_univ, ENat.card_eq_coe_fintype_card]
    rfl
  obtain ⟨h', freed, rest, left, lost⟩ := release_leaks (h := ⟨_, 0⟩) (n := none) |>.1 none
    (Placed.of_injective injective (ownedContents K _ _ _ Rubiks.makeCube))
  obtain ⟨h'', freed', -, left', lost'⟩ := release_leaks (h := ⟨_, 0⟩) (n := none) |>.2
    (Placed.of_injective injective (ownedContents K _ _ _ Rubiks.makeCube))
  have sem : h'.blocks (K .right) = some (.sem none) := rest.inside .right (Set.mem_insert _ _)
  refine ⟨K, ⟨_, h', freed, all _, by simpa using left, sem, fun a b f alive points => ?_⟩, _, h'', freed', all _,
    by simpa using left', fun a b f alive points => ?_⟩
  · cases lost.faces a b f alive points
  · cases lost'.faces a b f alive points

theorem listenArgsAt_eq {p : Address} {s : ListenArgsBlock} (found : h.blocks p = some (.listenArgs s)) :
    listenArgsAt p h = .ok (s, h) := by
  rw [listenArgsAt, bind_ok (read_eq found)]
  rfl

/-- The listeners' arguments share one server, so releasing two of them frees it twice. -/
theorem release_twice_undefined {p q s : Address} {h : Heap Struct} (distinct : p ≠ q) (apart : s ≠ q)
    (other : s ≠ p) (first : h.blocks p = some (.listenArgs ⟨some s⟩))
    (second : h.blocks q = some (.listenArgs ⟨some s⟩)) (alive : h.blocks s ≠ none) :
    (do freeServerThreadListenToPipeArgs p; freeServerThreadListenToPipeArgs q) h = .error .undefined := by
  have freed : freeServerThreadListenToPipeArgs p h = .ok ((), (h.erase s).erase p) := by
    rw [freeServerThreadListenToPipeArgs, bind_ok (listenArgsAt_eq first), bind_ok (defined_eq s h),
      bind_ok (free_eq alive)]
    exact free_eq (by simp [Function.update_of_ne other.symm, first])
  have still : ((h.erase s).erase p).blocks q = some (.listenArgs ⟨some s⟩) := by
    simp [Function.update_of_ne distinct.symm, Function.update_of_ne apart.symm, second]
  rw [bind_ok freed, freeServerThreadListenToPipeArgs, bind_ok (listenArgsAt_eq still),
    bind_ok (defined_eq s _)]
  refine bind_error ?_
  simp [free, Function.update_of_ne other]

end Rubiks.OnHeap

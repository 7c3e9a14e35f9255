import BuildDeps.Include.Process
import BuildDeps.Proofs.Graph.Arena
import BuildDeps.Proofs.Step.Keep

/-!
# Sequences of calls on a directory

A directory may be worked on by other calls than those of a whole run, in any order, and a call
may end in a fault halfway. Whatever was called, the places of the graph are in order, so that no
look-up leads out of it.

## Main definitions

* `Step.Call`, with `Call.step` for what a call does.
* `Step.Reachable` are the states that calls lead to.

## Main statements

* `Step.keeps_arena`: a call keeps the places of a graph in order.
* `Step.arena_of_reachable`: they are in order in every state that calls lead to.
-/

namespace BuildDeps.Step

variable {t : Tree} {v w : Work} {i : Nat}

/-- A call on a directory. Nodes are given by their places. -/
inductive Call where
  | addSource (name : Text)
  | addGenerated (name : Text) (baseName : Option Text)
  | addInclude (parent : Nat) (name : Text) (line : Int) (kind : ReferenceKind)
  | setRuntime (node : Nat) (altRuntime : Bool)
  | read (node : Nat) (isSource : Bool)
  | resolveIncludes
  | derive
  | close (config : Text) (source : Nat)

namespace Call

/-- What a call does. -/
def step (t : Tree) : Call → Step Unit
  | addSource name => discard (Step.addSource t name)
  | addGenerated name baseName => modifyDir fun d => (d.addGenerated name [] baseName).2
  | addInclude parent name line kind => modifyDir fun d => (d.addInclude parent name line kind).2
  | setRuntime node altRuntime => modifyDir (·.setRuntime node altRuntime)
  | read node isSource => Step.read t node isSource
  | resolveIncludes => Step.resolveIncludes t
  | derive => Step.derive t
  | close config source => Step.close config source

/-- The node that a call is given. -/
def node? : Call → Option Nat
  | addInclude node .. | setRuntime node _ | read node _ | close _ node => some node
  | addSource _ | addGenerated .. | resolveIncludes | derive => none

end Call

/-- The states that calls lead to, each on nodes that the directory has then. The tree may be
another one at each call, and so may what the directory shares with others. -/
inductive Reachable (w : Work) : Work → Prop
  | start : Reachable w w
  | call {v : Work} (t : Tree) {c : Call} : Reachable w v →
      (∀ i ∈ c.node?, i < v.dir.nodes.length) → Reachable w ((c.step t).run v).2
  | share {v : Work} (catalogue : Catalogue) (languages : List Text) : Reachable w v →
      Reachable w { v with catalogue, languages }

/-! ## What each call keeps -/

/-- The places are in order, and one of them is given. -/
def ArenaAt (i : Nat) (d : BuildDir) : Prop := d.Arena ∧ i < d.nodes.length

theorem ArenaAt.modifyNode {d : BuildDir} {f : Node → Node} (h : ArenaAt i d)
    (hf : ∀ n, (f n).Replaces d i n) : ArenaAt i (d.modifyNode i f) :=
  ⟨h.1.modifyNode fun n _ => hf n, Nat.lt_of_lt_of_eq h.2 (d.length_nodes_modifyNode i f).symm⟩

theorem keeps_arenaAt_read {isSource : Bool} :
    Keeps (fun w => ArenaAt i w.dir) (read t i isSource) := by
  refine keeps_read ?_ ?_ ?_ ?_
  · exact fun d c hd => hd.modifyNode fun n => .of_eq rfl rfl rfl rfl rfl
  · exact fun d path hd => hd.modifyNode fun n => .of_eq rfl rfl rfl rfl rfl
  · exact fun d hd => hd.modifyNode fun n => .of_eq rfl rfl rfl rfl rfl
  · exact fun d f hd => ⟨hd.1.attach hd.2 f,
      Nat.lt_of_lt_of_le hd.2 (BuildDir.length_nodes_le_attach f)⟩

theorem keeps_arena_addSource {name : Text} :
    Keeps (fun w => w.dir.Arena) (addSource t name) := by
  refine keeps_dir_bind fun w hw => ?_
  cases hs : w.dir.findSource? name with
  | some i => exact hw
  | none =>
      have hadded : (w.dir.addSource name).2.Arena := hw.addSource hs
      refine run_bind_snd (P := fun w => w.dir.Arena) hadded fun i u hu => ?_
      obtain ⟨rfl, rfl⟩ := yields_changeDir.1 hu
      have hlast : ArenaAt w.dir.nodes.length (w.dir.addSource name).2 := by
        refine ⟨hadded, ?_⟩
        rw [BuildDir.length_nodes_addSource]
        exact Nat.lt_succ_self _
      exact (keeps_bind keeps_arenaAt_read (fun _ => keeps_pure _) _ hlast).1

theorem keeps_arena_visit : Keeps (fun w => w.dir.Arena) (visit t i) := by
  refine keeps_dir_bind fun w hw => ?_
  split
  · rename_i hi
    obtain ⟨n, hn, -⟩ := (Option.any_eq_true ..).1 hi
    exact (keeps_arenaAt_read w ⟨hw, BuildDir.lt_of_node? hn⟩).1
  · exact hw

theorem keeps_arena_deriveFrom : Keeps (fun w => w.dir.Arena) (deriveFrom t i) :=
  keeps_deriveFrom (fun c _ ps hd => hd.foldl_addImplied c i ps)
    (fun _ _ hd => hd.congr rfl rfl rfl rfl rfl) fun _ _ hd => hd.congr rfl rfl rfl rfl rfl

/-- The places are in order, and a given one is a source. -/
def ArenaFrom (i : Nat) (d : BuildDir) : Prop := d.Arena ∧ i ∈ d.sources

theorem keeps_arenaFrom_markFile {m : Mark} :
    Keeps (fun w => ArenaFrom i w.dir) (markFile i m) :=
  keeps_markFile fun _ _ _ _ _ hd =>
    ⟨hd.1.modifyNode fun _ _ => .of_eq rfl rfl rfl rfl rfl, hd.2⟩

/-- A source is not indexed by its runtime, which may be set without a change of the index. -/
theorem keeps_arena_addExtraObject {name : Text} :
    Keeps (fun w => w.dir.Arena) (addExtraObject name) := by
  unfold addExtraObject
  split
  · intro w hw
    refine run_bind_snd (P := fun w => w.dir.Arena) hw.addGenerated fun i u hu => ?_
    obtain ⟨rfl, rfl⟩ := yields_changeDir.1 hu
    refine (keeps_bind keeps_arenaFrom_markFile (fun _ => keeps_modifyDir ?_) _
      ⟨hw.addGenerated, hw.mem_sources_addGenerated⟩).1
    rintro u ⟨hu, hi⟩
    refine ⟨hu.modifyNode fun n _ => ⟨rfl, fun hi' => ?_, fun hn => ?_⟩, hi⟩
    · exact absurd hi' (hu.not_mem_includes hi)
    · exact ⟨hn.children, hn.owner, hn.includedBy⟩
  · split
    · exact keeps_modifyDir fun u hu => hu.addGenerated
    · exact keeps_modifyDir fun u hu => hu.addGenerated

theorem keeps_arena_derive : Keeps (fun w => w.dir.Arena) (derive t) :=
  keeps_derive (fun _ => keeps_arena_deriveFrom) (fun _ hw => hw.addGenerated)
    fun _ => keeps_arena_addExtraObject

theorem keeps_arena_close {config : Text} : Keeps (fun w => w.dir.Arena) (close config i) := by
  refine keeps_get_bind fun w hw => ?_
  have hclosed := hw.close w.catalogue config i
  dsimp only
  refine run_bind_snd (P := fun w => w.dir.Arena) hclosed fun _ u hu => ?_
  obtain rfl := yields_modifyDir.1 hu
  cases (w.dir.close w.catalogue config i).2 with
  | none => exact hclosed
  | some e => exact hclosed

/-! ## Sequences of calls -/

/-- A call keeps the places of a graph in order, also if it ends in a fault. -/
theorem arena_call {c : Call} (hw : w.dir.Arena) (hc : ∀ i ∈ c.node?, i < w.dir.nodes.length) :
    ((c.step t).run w).2.dir.Arena := by
  cases c with
  | addSource name => exact keeps_discard keeps_arena_addSource w hw
  | addGenerated name baseName => exact hw.addGenerated
  | addInclude parent name line kind => exact hw.addInclude (hc parent rfl)
  | setRuntime node altRuntime => exact hw.setRuntime
  | read node isSource => exact (keeps_arenaAt_read w ⟨hw, hc node rfl⟩).1
  | resolveIncludes => exact keeps_resolveIncludes (fun i => keeps_arena_visit) w hw
  | derive => exact keeps_arena_derive w hw
  | close config source => exact keeps_arena_close w hw

theorem Reachable.arena (hw : w.dir.Fresh) (h : Reachable w v) : v.dir.Arena := by
  induction h with
  | start => exact hw.arena
  | call t _ hc ih => exact arena_call ih hc
  | share _ _ _ ih => exact ih

/-- Whatever was called on a fresh directory, also with faults, its sources and includes share out
the places of its graph, all references and indexes lead where they should, and no reference leads
out of the graph. An include that is added to a node has the requested name and the runtime of
that node. -/
theorem arena_of_reachable (hw : w.dir.Fresh) (h : Reachable w v) :
    v.dir.Arena ∧ (v.dir.sourceNodes.map fun (_, n) => n.name).Nodup ∧
      (∀ i, v.dir.Refers i → ∃ n, v.dir.node? i = some n) ∧
      ∀ parent n name line kind, v.dir.node? parent = some n → ∃ m,
        (v.dir.addInclude parent name line kind).2.node?
          (v.dir.addInclude parent name line kind).1 = some m ∧
        m.name = name ∧ m.altRuntime = n.altRuntime := by
  have harena : v.dir.Arena := h.arena hw
  refine ⟨harena, harena.nodup_names, fun i hi => ?_, ?_⟩
  · exact ⟨_, List.getElem?_eq_getElem (harena.lt_length_of_refers hi)⟩
  · exact fun parent n name line kind hn => harena.exists_node?_addInclude hn

/-- A source that includes itself and a header that is missing. -/
def withoutHeader : Tree :=
  .ofFiles [] [(["a.c"], "#include \"a.c\"\n#include \"missing.h\"\n")]

/-- The state after the source was declared. -/
def declared : Work := ((Call.addSource "a.c").step withoutHeader |>.run Work.fresh).2

/-- The state after the missing header was read, which ends in a fault. -/
def stopped : Work := ((Call.read 2 false).step withoutHeader |>.run declared).2

theorem arena_of_reachable_stopped : Work.fresh.dir.Fresh ∧ Reachable Work.fresh stopped ∧
    ((Call.read 2 false).step withoutHeader |>.run declared).1.isOk = false ∧
    (stopped.dir.sources = [0] ∧ stopped.dir.includes = [1, 2]) ∧ stopped.dir.Arena := by
  have hdeclared : Reachable Work.fresh declared :=
    .call withoutHeader (c := .addSource "a.c") .start (by simp [Call.node?])
  have hstopped : Reachable Work.fresh stopped := by
    refine .call withoutHeader (c := .read 2 false) hdeclared fun i hi => ?_
    obtain rfl := Option.some.inj hi
    decide +kernel
  exact ⟨Work.fresh_dir, hstopped, by decide +kernel, by decide +kernel,
    (arena_of_reachable Work.fresh_dir hstopped).1⟩

end BuildDeps.Step

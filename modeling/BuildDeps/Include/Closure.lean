import BuildDeps.BuildDir.Basic

/-!
# Closing a source over its includes

A source depends on every file that it includes, directly or through others. The include graph
is walked in preorder, each node once for each source, and each path is listed once. A type
library is a dependency only of sources that a type library is built from.

## Main definitions

* `Closure.walk` lists the paths behind a stack of nodes.
* `BuildDir.close` closes a source.
-/

namespace BuildDeps

/-- The path of the configuration header in a build tree. -/
def configHeader : Text := "include/config.h"

namespace Closure

/-- What the walk for one source keeps to. -/
structure Rules where
  /-- The place of the source. -/
  source : Nat
  /-- Whether type libraries count. -/
  takesLibraries : Bool
  /-- The paths of the configuration header, where it has to be the first include. -/
  configHeaders : List Text
  /-- The first include of the source. -/
  first : Option Nat

/-- The nodes of a graph, with those that the source owns by now, and the paths listed so far. -/
structure Listing where
  nodes : List Node
  dependencies : List Text
  libraries : List Text

namespace Listing

/-- List a path with those of its kind, unless it is listed. -/
def list (l : Listing) (kind : ReferenceKind) (path : Text) : Listing :=
  if path ∈ l.dependencies ∨ path ∈ l.libraries then l
  else if kind = .library then { l with libraries := l.libraries ++ [path] }
  else { l with dependencies := l.dependencies ++ [path] }

/-- Let a source own a node. -/
def own (l : Listing) (source i : Nat) : Listing :=
  { l with nodes := l.nodes.modify i fun n => { n with owner := some source } }

/-- The number of nodes that a source does not own. -/
def unowned (l : Listing) (source : Nat) : Nat := l.nodes.countP (·.owner != some source)

@[simp] theorem nodes_list (l : Listing) (kind : ReferenceKind) (path : Text) :
    (l.list kind path).nodes = l.nodes := by
  unfold list; split
  · rfl
  · split <;> rfl

theorem countP_modify_lt {α : Type} {p : α → Bool} {f : α → α} {l : List α} {i : Nat} {a : α}
    (hi : l[i]? = some a) (ha : p a = true) (hf : p (f a) = false) :
    (l.modify i f).countP p < l.countP p := by
  induction l generalizing i with
  | nil => simp at hi
  | cons b l ih =>
    cases i with
    | zero =>
      simp only [List.getElem?_cons_zero, Option.some.injEq] at hi
      subst hi
      simp [ha, hf]
    | succ i =>
      have := ih (by simpa using hi)
      simp only [List.modify_succ_cons, List.countP_cons]
      omega

theorem unowned_own_lt {l : Listing} {source i : Nat} {n : Node} (hi : l.nodes[i]? = some n)
    (hn : n.owner ≠ some source) : (l.own source i).unowned source < l.unowned source :=
  countP_modify_lt hi (by simpa using hn) (by simp)

end Listing

/-- Whether a node can be listed, and walked through. -/
def isWalkable (r : Rules) (n : Node) : Bool :=
  Text.present n.filename && (n.kind != .library || r.takesLibraries)

/-- Whether a node at a place is the configuration header behind other includes. -/
def isMisplaced (r : Rules) (i : Nat) (n : Node) : Bool :=
  n.filename.any (· ∈ r.configHeaders) && r.first != some i

/-- List the paths behind the nodes of a stack. The walk ends early at a configuration header
that comes too late. -/
def walk (r : Rules) (l : Listing) (stack : List Nat) : Listing × Option Node :=
  match stack with
  | [] => (l, none)
  | i :: stack =>
    match _hi : l.nodes[i]? with
    | none => walk r l stack
    | some n =>
      if _hn : n.owner = some r.source then walk r l stack
      else if isWalkable r n then
        let l' := (l.list n.kind (n.filename.getD [])).own r.source i
        if isMisplaced r i n then (l', some n) else walk r l' (n.children ++ stack)
      else walk r l stack
termination_by (l.unowned r.source, stack.length)
decreasing_by
  · exact Prod.Lex.right _ (Nat.lt_succ_self _)
  · exact Prod.Lex.right _ (Nat.lt_succ_self _)
  · refine Prod.Lex.left _ _ (Nat.lt_of_lt_of_le
      (Listing.unowned_own_lt (by rw [Listing.nodes_list]; exact _hi) _hn) ?_)
    simp [Listing.unowned]
  · exact Prod.Lex.right _ (Nat.lt_succ_self _)

/-- The rules for a source at a place. In an external library the configuration header may come
anywhere. -/
def rulesFor (c : Catalogue) (i : Nat) (n : Node) (config : Text) : Rules where
  source := i
  takesLibraries := (n.marks c).has .typeLibrary || (n.marks c).has .registeredTypeLibrary
  configHeaders := if n.isExternal then [] else [configHeader, config]
  first := n.children.head?

/-- The line where a file refers to a name last, or zero. -/
def lastLine (f : SourceFile) (name : Text) : Nat :=
  ((f.references.reverse.find? (·.name = name)).map (·.line)).getD 0

end Closure

/-- List the dependencies of a source, with those that it has already. A source without a file
has none. -/
def BuildDir.close (c : Catalogue) (config : Text) (d : BuildDir) (i : Nat) :
    BuildDir × Option Fault :=
  match d.node? i with
  | none => (d, none)
  | some n =>
    if !Text.present n.filename then (d, none)
    else
      let (l, late) := Closure.walk (Closure.rulesFor c i n config)
        ⟨d.nodes, n.dependencies, n.libraries⟩ n.children
      ({ d with nodes := l.nodes.modify i fun n => { n with
          dependencies := l.dependencies, libraries := l.libraries } },
        late.map fun m => .configHeaderOrder m.name (n.filename.getD [])
          (((n.file? c).map (Closure.lastLine · m.name)).getD 0))

end BuildDeps

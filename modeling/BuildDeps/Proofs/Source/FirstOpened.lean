import BuildDeps.Proofs.Table.Collected
import BuildDeps.Source.Catalogue

/-!
# The catalogue on a changing disk

Between two requests for entries, the disk may change in any way. What is invariant from request to
request is that the catalogue has the paths that could be opened, in order of first success, each
with what was found in the text that it gave first. A malformed directive is reported for that text
only once: its findings so far are an entry as well, which all later requests get.

## Main definitions

* `Catalogue.Request` is a request with the disk as it is by then, `Catalogue.after` the catalogue
  after some requests.
* `Catalogue.firstText?`: the text that a path gave first.
* `Catalogue.Faulted`: a request was answered with a malformed directive.

## Main statements

* `Catalogue.get?_load`, `Catalogue.keys_load`: what one request makes of a catalogue.
* `Catalogue.keys_after`, `Catalogue.get?_after`: the catalogue after some requests.
* `Catalogue.load_after`.
-/

namespace BuildDeps.Catalogue

/-- A request for the entry of a path, and the disk as it is by then. -/
structure Request where
  disk : Disk
  path : Text

/-- The text of the file that is asked for, if it can be opened. -/
def Request.text? (r : Request) : Option Text := (r.disk.textAt r.path).toOption

/-- The catalogue after some requests. -/
def after (rs : List Request) : Catalogue := rs.foldl (fun c r => (c.load r.disk r.path).2) ∅

/-- The answer to a request after some others. -/
def answer (rs : List Request) (r : Request) : Except Fault (Option SourceFile) :=
  ((after rs).load r.disk r.path).1

/-- The paths of the requests whose file could be opened. -/
def openedPaths (rs : List Request) : List Text :=
  (rs.filter (·.text?.isSome)).map Request.path

/-- The text that a path gave when it could be opened first. -/
def firstText? (rs : List Request) (path : Text) : Option Text :=
  rs.findSome? fun r => if r.path = path then r.text? else none

/-- What is found in a text, up to a malformed directive. -/
def scanned (path t : Text) : SourceFile := ⟨path, (Scan.text path t).findings⟩

/-- One of some requests was answered with a malformed directive of a file. -/
def Faulted (rs : List Request) (path : Text) (e : MalformedDirective) (line : Nat) : Prop :=
  ∃ before r behind, rs = before ++ r :: behind ∧ r.path = path ∧
    answer before r = .error (.malformedDirective e path line)

variable {c : Catalogue} {rs later : List Request} {r : Request} {path t : Text} {disk : Disk}
  {f : SourceFile} {e : MalformedDirective} {line : Nat}

/-! ## One request -/

theorem load_of_get? (h : c.get? path = some f) : c.load disk path = (.ok (some f), c) := by
  rw [load, h]

theorem load_of_text? (hget : c.get? r.path = none) (htext : r.text? = some t) :
    c.load r.disk r.path =
      (match (Scan.text r.path t).fault with
        | some (e, line) => .error (.malformedDirective e r.path line)
        | none => .ok (some (scanned r.path t)),
      c.insert r.path (scanned r.path t)) := by
  have hat : r.disk.textAt r.path = .ok t := by
    unfold Request.text? at htext
    cases hat : r.disk.textAt r.path with
    | error e =>
        rw [hat] at htext
        cases htext
    | ok u =>
        rw [hat] at htext
        rw [Option.some.inj htext]
  rw [load, hget, hat]
  rfl

/-- A path without an entry that cannot be opened gets none. -/
theorem load_of_text?_eq_none (hget : c.get? r.path = none) (htext : r.text? = none) :
    ∃ a, (a = .ok none ∨ a = .error (.system .nulInPath)) ∧ c.load r.disk r.path = (a, c) := by
  unfold Request.text? at htext
  rw [load, hget]
  cases hat : r.disk.textAt r.path with
  | error e =>
      cases e with
      | nulInPath => exact ⟨_, .inr rfl, rfl⟩
      | _ => exact ⟨_, .inl rfl, rfl⟩
  | ok u =>
      rw [hat] at htext
      cases htext

/-- A request keeps all entries, and adds one for its path if there is none and it can be opened. -/
theorem get?_load (c : Catalogue) (r : Request) (path : Text) :
    (c.load r.disk r.path).2.get? path =
      (c.get? path).or (if r.path = path then r.text?.map (scanned path) else none) := by
  cases hget : c.get? r.path with
  | some f =>
      rw [load_of_get? hget]
      by_cases hpath : r.path = path
      · rw [← hpath, hget, Option.some_or]
      · rw [if_neg hpath, Option.or_none]
  | none =>
      cases htext : r.text? with
      | none =>
          obtain ⟨a, -, hload⟩ := load_of_text?_eq_none hget htext
          rw [hload, Option.map_none, ite_self, Option.or_none]
      | some t =>
          rw [load_of_text? hget htext, Table.get?_insert]
          by_cases hpath : r.path = path
          · rw [← hpath, if_pos rfl, if_pos rfl, hget, Option.none_or, Option.map_some]
          · rw [if_neg hpath, if_neg hpath, Option.or_none]

theorem keys_load (c : Catalogue) (r : Request) :
    (c.load r.disk r.path).2.keys =
      if r.path ∈ c.keys ∨ r.text? = none then c.keys else c.keys ++ [r.path] := by
  cases hget : c.get? r.path with
  | some f =>
      have hkey : r.path ∈ c.keys := Table.mem_keys_iff.2 (by rw [hget, Option.isSome_some])
      rw [load_of_get? hget, if_pos (.inl hkey)]
  | none =>
      cases htext : r.text? with
      | none =>
          obtain ⟨a, -, hload⟩ := load_of_text?_eq_none hget htext
          rw [hload, if_pos (.inr rfl)]
      | some t =>
          rw [load_of_text? hget htext, Table.keys_insert]
          simp

/-! ## Some requests -/

theorem after_concat (rs : List Request) (r : Request) :
    after (rs ++ [r]) = ((after rs).load r.disk r.path).2 := by
  rw [after, List.foldl_append, List.foldl_cons, List.foldl_nil, ← after]

theorem firstText?_append (rs later : List Request) (path : Text) :
    firstText? (rs ++ later) path = (firstText? rs path).or (firstText? later path) := by
  rw [firstText?, List.findSome?_append]
  rfl

theorem firstText?_singleton (r : Request) (path : Text) :
    firstText? [r] path = if r.path = path then r.text? else none := by
  rw [firstText?, List.findSome?_singleton]

theorem firstText?_concat (rs : List Request) (r : Request) :
    firstText? (rs ++ [r]) r.path = (firstText? rs r.path).or r.text? := by
  rw [firstText?_append, firstText?_singleton, if_pos rfl]

/-- The catalogue has, for each path, what is found in the text that it gave first. -/
theorem get?_after (rs : List Request) (path : Text) :
    (after rs).get? path = (firstText? rs path).map (scanned path) := by
  induction rs using List.reverseRecOn with
  | nil => rfl
  | append_singleton rs r ih =>
      rw [after_concat, get?_load, ih, firstText?_append, firstText?_singleton, Option.map_or]
      split <;> rfl

theorem openedPaths_concat (rs : List Request) (r : Request) :
    openedPaths (rs ++ [r]) =
      if r.text? = none then openedPaths rs else openedPaths rs ++ [r.path] := by
  rw [openedPaths, List.filter_append, List.map_append, ← openedPaths]
  cases htext : r.text? <;> simp [htext]

/-- The catalogue has the paths that could be opened, in order of first success. -/
theorem keys_after (rs : List Request) : (after rs).keys = (openedPaths rs).eraseDups := by
  induction rs using List.reverseRecOn with
  | nil => rfl
  | append_singleton rs r ih =>
      rw [after_concat, keys_load, ih, openedPaths_concat]
      cases r.text? with
      | none => rw [if_pos (.inr rfl), if_pos rfl]
      | some t => simp [eraseDups_concat]

/-! ## Answers -/

/-- A path that was opened before gives what was found then, whatever the disk has by now. -/
theorem load_of_firstText? (h : firstText? rs path = some t) (disk : Disk) :
    (after rs).load disk path = (.ok (some (scanned path t)), after rs) :=
  load_of_get? (by rw [get?_after, h]; rfl)

/-- A path that is opened for the first time is scanned. -/
theorem answer_of_text? (hfirst : firstText? rs r.path = none) (htext : r.text? = some t) :
    answer rs r = match (Scan.text r.path t).fault with
      | some (e, line) => .error (.malformedDirective e r.path line)
      | none => .ok (some (scanned r.path t)) := by
  have hget : (after rs).get? r.path = none := by rw [get?_after, hfirst]; rfl
  rw [answer, load_of_text? hget htext]

theorem answer_of_text?_eq_none (hfirst : firstText? rs r.path = none) (htext : r.text? = none) :
    answer rs r = .ok none ∨ answer rs r = .error (.system .nulInPath) := by
  have hget : (after rs).get? r.path = none := by rw [get?_after, hfirst]; rfl
  obtain ⟨a, ha, hload⟩ := load_of_text?_eq_none hget htext
  rwa [answer, hload]

/-- A malformed directive is reported just when its file is opened for the first time. -/
theorem answer_eq_malformed_iff : answer rs r = .error (.malformedDirective e r.path line) ↔
    firstText? rs r.path = none ∧
      ∃ t, r.text? = some t ∧ (Scan.text r.path t).fault = some (e, line) := by
  cases hfirst : firstText? rs r.path with
  | some t =>
      rw [answer, load_of_firstText? hfirst]
      simp
  | none =>
      cases htext : r.text? with
      | none => rcases answer_of_text?_eq_none hfirst htext with h | h <;> simp [h]
      | some t =>
          rw [answer_of_text? hfirst htext]
          cases hfault : (Scan.text r.path t).fault with
          | none => simp [hfault]
          | some x => simp [hfault, Prod.ext_iff]

/-- A text that was opened before and has a malformed directive was reported then. -/
theorem faulted_of_firstText? (h : firstText? rs path = some t)
    (hfault : (Scan.text path t).fault = some (e, line)) : Faulted rs path e line := by
  obtain ⟨before, r, behind, rfl, hr, hbefore⟩ := List.findSome?_eq_some_iff.1 h
  obtain ⟨rfl, htext⟩ : r.path = path ∧ r.text? = some t := by
    simpa using hr
  refine ⟨before, r, behind, rfl, rfl, answer_eq_malformed_iff.2 ⟨?_, t, htext, hfault⟩⟩
  exact List.findSome?_eq_none_iff.2 hbefore

theorem firstText?_of_faulted (h : Faulted rs path e line) : firstText? rs path ≠ none := by
  obtain ⟨before, r, behind, rfl, rfl, hanswer⟩ := h
  obtain ⟨-, t, htext, -⟩ := answer_eq_malformed_iff.1 hanswer
  intro hnone
  have hr := List.findSome?_eq_none_iff.1 hnone r (by simp)
  rw [if_pos rfl, htext] at hr
  cases hr

/-- An entry that a request gets is of the text that its path gave first. It is of all of that text,
unless a request was answered with a malformed directive of it before. -/
theorem answer_eq_some_iff : answer rs r = .ok (some f) ↔
    ∃ t, firstText? (rs ++ [r]) r.path = some t ∧ f = scanned r.path t ∧
      ∀ e line, (Scan.text r.path t).fault = some (e, line) → Faulted rs r.path e line := by
  rw [firstText?_concat]
  cases hfirst : firstText? rs r.path with
  | some t =>
      have hfaulted (e line) (hfault : (Scan.text r.path t).fault = some (e, line)) :
          Faulted rs r.path e line := faulted_of_firstText? hfirst hfault
      rw [answer, load_of_firstText? hfirst]
      simp only [Option.some_or, Except.ok.injEq, Option.some.injEq]
      constructor
      · rintro rfl
        exact ⟨t, rfl, rfl, hfaulted⟩
      · rintro ⟨t, rfl, rfl, -⟩
        rfl
  | none =>
      have hnew {e line} : ¬ Faulted rs r.path e line :=
        fun h => firstText?_of_faulted h hfirst
      cases htext : r.text? with
      | none => rcases answer_of_text?_eq_none hfirst htext with h | h <;> simp [h]
      | some t =>
          rw [answer_of_text? hfirst htext]
          cases hfault : (Scan.text r.path t).fault with
          | none => simp [hfault, eq_comm]
          | some x =>
              obtain ⟨e, line⟩ := x
              simp [hfault, hnew]

/-! ## Runs -/

/-- Whatever becomes of the disk between requests: the catalogue has the paths that could be opened,
each with what is found in the text that it gave first. This is what all later requests get, and of
a text without malformed directives also the first one. A malformed directive is reported once,
and then its text counts as read up to there. -/
theorem load_after (rs : List Request) (r : Request) :
    ((after rs).keys = (openedPaths rs).eraseDups ∧
      ∀ path, (after rs).get? path = (firstText? rs path).map (scanned path)) ∧
    (∀ f, answer rs r = .ok (some f) ↔
      ∃ t, firstText? (rs ++ [r]) r.path = some t ∧ f = scanned r.path t ∧
        ∀ e line, (Scan.text r.path t).fault = some (e, line) → Faulted rs r.path e line) ∧
    (∀ e line, answer rs r = .error (.malformedDirective e r.path line) ↔
      firstText? rs r.path = none ∧
        ∃ t, r.text? = some t ∧ (Scan.text r.path t).fault = some (e, line)) ∧
    ∀ t later disk, firstText? (rs ++ [r]) r.path = some t →
      (after (rs ++ r :: later)).load disk r.path =
        (.ok (some (scanned r.path t)), after (rs ++ r :: later)) := by
  refine ⟨⟨keys_after rs, get?_after rs⟩, fun f => answer_eq_some_iff,
    fun e line => answer_eq_malformed_iff, fun t later disk h => ?_⟩
  refine load_of_firstText? ?_ disk
  rw [List.append_cons, firstText?_append, h, Option.some_or]

/-- A disk with one source file. -/
def oneFile (content : String) : Disk where
  entries := Table.ofList [(["a.c".toUTF8.toList], .file content.toUTF8.toList)]
  workDir := []

/-- A file that is changed, and then removed, after it was opened. -/
theorem load_after_changed :
    firstText? ([] ++ [⟨oneFile "#include <x.h>\n", "a.c"⟩]) "a.c" =
      some "#include <x.h>\n" ∧
    (after ([] ++ ⟨oneFile "#include <x.h>\n", "a.c"⟩ ::
        [⟨oneFile "#include <y.h>\n", "a.c"⟩])).load ⟨∅, []⟩ "a.c" =
      (.ok (some ⟨"a.c", { references := [⟨1, .system, "x.h"⟩] }⟩),
        after ([] ++ ⟨oneFile "#include <x.h>\n", "a.c"⟩ ::
          [⟨oneFile "#include <y.h>\n", "a.c"⟩])) := by
  have hfirst : firstText? ([] ++ [⟨oneFile "#include <x.h>\n", "a.c"⟩]) "a.c" =
      some "#include <x.h>\n" := by decide +kernel
  have hfound : scanned "a.c" "#include <x.h>\n" =
      ⟨"a.c", { references := [⟨1, .system, "x.h"⟩] }⟩ := by decide +kernel
  refine ⟨hfirst, ?_⟩
  rw [← hfound]
  exact (load_after [] ⟨oneFile "#include <x.h>\n", "a.c"⟩).2.2.2 _ _ _ hfirst

/-- A file with a directive that has no end. -/
def openInclude : Request := ⟨oneFile "#include \"x.h\"\n#include \"y\n", "a.c"⟩

/-- The request that meets the malformed directive adds an entry. The next one gets it, with a
reference out of a text that was never scanned to its end, also once the file was repaired. -/
theorem answer_openInclude_partial :
    answer [] openInclude = .error (.malformedDirective (.openInclude " \"y") "a.c" 2) ∧
    (after []).keys = [] ∧ (after [openInclude]).keys = [Text.ofString "a.c"] ∧
    answer [openInclude] openInclude =
      .ok (some ⟨"a.c", { references := [⟨1, .quoted, "x.h"⟩] }⟩) ∧
    answer [openInclude] ⟨oneFile "#include <y.h>\n", "a.c"⟩ =
      .ok (some ⟨"a.c", { references := [⟨1, .quoted, "x.h"⟩] }⟩) := by
  decide +kernel

end BuildDeps.Catalogue

import BuildDeps.Text.Basic

/-!
# Products of a build directory

The files that a build makes in a directory, by what they are for, and the files that cleaning
the directory removes.
-/

namespace BuildDeps

/-- The files made in a directory. -/
structure Products where
  /-- Objects for the platform of the build, for the cross target, and of Unix libraries. -/
  objects : List Text := []
  crossObjects : List Text := []
  unixObjects : List Text := []
  /-- Objects of an import library. -/
  importObjects : List Text := []
  /-- Compiled resources. -/
  resources : List Text := []
  /-- Templates for translations. -/
  translationTemplates : List Text := []
  fonts : List Text := []
  /-- Files made from templates. -/
  filledTemplates : List Text := []
  /-- Manual pages with their sections. -/
  manualPages : List (Text × Text) := []
  /-- Interfaces whose proxies are part of the module. -/
  proxies : List Text := []
  /-- Results of tests. -/
  testResults : List Text := []
  /-- What a build of everything makes. -/
  targets : List Text := []
  /-- What cleaning removes. -/
  cleaned : List Text := []
  /-- What the sources depend on. -/
  dependencies : List Text := []
  deriving DecidableEq

namespace Products

/-- A list with a text behind its others, unless it has that text. -/
def addUnique (ts : List Text) (t : Text) : List Text := if t ∈ ts then ts else ts ++ [t]

/-- Add products to each list behind the ones that are there. Dependencies are listed once. -/
def append (a b : Products) : Products where
  objects := a.objects ++ b.objects
  crossObjects := a.crossObjects ++ b.crossObjects
  unixObjects := a.unixObjects ++ b.unixObjects
  importObjects := a.importObjects ++ b.importObjects
  resources := a.resources ++ b.resources
  translationTemplates := a.translationTemplates ++ b.translationTemplates
  fonts := a.fonts ++ b.fonts
  filledTemplates := a.filledTemplates ++ b.filledTemplates
  manualPages := a.manualPages ++ b.manualPages
  proxies := a.proxies ++ b.proxies
  testResults := a.testResults ++ b.testResults
  targets := a.targets ++ b.targets
  cleaned := a.cleaned ++ b.cleaned
  dependencies := b.dependencies.foldl addUnique a.dependencies

instance : Append Products := ⟨append⟩

end Products

end BuildDeps

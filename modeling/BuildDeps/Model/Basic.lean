import BuildDeps.Generation
import BuildDeps.Model.Document

/-!
# The resolved model of a tree

The model is the document that tells other tools about the directories of a tree: what they
build, what their sources depend on, and what their products are.

## Main definitions

* `Generation.model` is the model of a tree.
-/

namespace BuildDeps

/-- The entry of a source. -/
def Node.document (c : Catalogue) (n : Node) : Document :=
  .record [
    ("name", .text n.name),
    ("filename", .ofOption n.filename),
    ("flags", .ofTexts ((n.marks c).toList.map Mark.name)),
    ("use_msvcrt", .bool n.altRuntime),
    ("dependencies", .ofTexts n.dependencies),
    ("importlib_dependencies", .ofTexts n.libraries)]

/-- The entry of the products of a directory. -/
def Products.document (p : Products) : Document :=
  .record [
    ("object_files", .ofTexts p.objects),
    ("crossobj_files", .ofTexts p.crossObjects),
    ("unixobj_files", .ofTexts p.unixObjects),
    ("implib_objs", .ofTexts p.importObjects),
    ("res_files", .ofTexts p.resources),
    ("pot_files", .ofTexts p.translationTemplates),
    ("font_files", .ofTexts p.fonts),
    ("in_files", .ofTexts p.filledTemplates),
    ("man_pages", .list (p.manualPages.map fun (page, section_) => .ofTexts [page, section_])),
    ("dlldata_files", .ofTexts p.proxies),
    ("ok_files", .ofTexts p.testResults),
    ("all_targets", .ofTexts p.targets),
    ("clean_files", .ofTexts p.cleaned),
    ("dependencies", .ofTexts p.dependencies)]

/-- The members of the entry of a directory. -/
def BuildDir.members (c : Catalogue) (d : BuildDir) : List (Text × Document) := [
  ("obj_dir", .ofOption d.objDir),
  ("src_dir", .ofOption d.sourceDir),
  ("parent", .ofOption d.parent),
  ("module", .ofOption d.module),
  ("testdll", .ofOption d.testDll),
  ("sharedlib", .ofOption d.sharedLib),
  ("staticlib", .ofOption d.staticLib),
  ("staticimplib", .ofOption d.staticImportLib),
  ("importlib", .ofOption d.importLib),
  ("unixlib", .ofOption d.unixLib),
  ("extlib", .ofOption d.externalLib),
  ("disabled", .bool d.disabled),
  ("use_msvcrt", .bool d.altRuntime),
  ("is_cross", .bool d.isCross),
  ("is_win16", .bool d.isWin16),
  ("is_exe", .bool d.isExe),
  ("imports", .ofTexts d.imports),
  ("delayimports", .ofTexts d.delayImports),
  ("extra_imports", .ofTexts d.extraImports),
  ("extradllflags", .ofTexts d.dllFlags),
  ("include_paths", .ofTexts d.includePaths),
  ("define_args", .ofTexts d.defines),
  ("sources", .list (d.sourceNodes.map fun (_, n) => n.document c)),
  ("outputs", d.products.document)]

/-- The model of a tree. -/
def Generation.model (g : Generation) : Document :=
  .record [
    ("srcdir", .ofOption g.settings.sourceRoot),
    ("dll_ext", .text g.settings.dllExtension),
    ("crosstarget", .ofOption g.settings.crossTarget),
    ("linguas", .ofTexts g.languages),
    ("units", .list (g.dirs.map fun d => .record (d.members g.catalogue)))]

end BuildDeps

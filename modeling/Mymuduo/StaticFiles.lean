-- Static files and the directory they are served from (src/http/HttpCore.h). The
-- guard of `serveFile` compares two resolved paths as texts and asks for no slash
-- behind the directory, so a link can lead to a sibling whose name only begins
-- with the name of the directory.
import Mymuduo.HttpRouting
import Mymuduo.FileTree

open bytes file_tree

namespace mymuduo.http_routing

open http_request http_response

/-! ## The calls and the tree -/

/-- The calls answer as a tree would, where they succeed at all. -/
structure FileSystem.Consistent (files : FileSystem) (tree : Tree) : Prop where
  realpath : ∀ path resolved, files.realpath path = some resolved →
    ∃ place, tree.Resolves path place ∧ resolved = render place
  openFile : ∀ path fd, files.openFile path = some fd →
    ∃ place, tree.Resolves path place ∧
      ∀ st, files.fstat fd = some st → st.regular = true → tree.node place = some .regular

def filepath (dir filename : Bytes) : Bytes := cString (dir ++ text "/" ++ urlDecode filename)

/-- A file goes out only behind all tests. Every error is a new response, without a file. -/
theorem serveFile_hasFileBody {files : FileSystem} {response : HttpResponse} {dir filename : Bytes}
    (h : (serveFile files response dir filename).hasFileBody = true) :
    ∃ resolvedPath resolvedDir fd st,
      files.realpath (filepath dir filename) = some resolvedPath ∧
      files.realpath (cString dir) = some resolvedDir ∧
      find resolvedDir resolvedPath = some 0 ∧
      files.openFile (filepath dir filename) = some fd ∧
      files.fstat fd = some st ∧ st.regular = true := by
  unfold serveFile serveFileUse at h
  dsimp only at h
  split at h
  · cases h
  · split at h
    · rename_i resolvedPath resolvedDir hpath hdir
      split at h
      · cases h
      · rename_i hfind
        split at h
        · cases h
        · rename_i fd hopen
          split at h
          · cases h
          · rename_i st hstat
            split at h
            · cases h
            · rename_i hregular
              split at h
              · cases h
              · exact ⟨resolvedPath, resolvedDir, fd, st, hpath, hdir, not_not.mp hfind, hopen,
                  hstat,
                  by simpa using hregular⟩
    · cases h

/-- The place of the file is a path of one name or more below the directory. -/
def StrictlyBelow (place file : List Bytes) : Prop := ∃ name names, file = place ++ name :: names

theorem strictlyBelow_iff {place file : List Bytes} :
    StrictlyBelow place file ↔ place <+: file ∧ place ≠ file := by
  constructor
  · rintro ⟨name, names, rfl⟩
    exact ⟨List.prefix_append _ _, fun h => by simp at h⟩
  · rintro ⟨⟨rest, rfl⟩, hne⟩
    cases rest with
    | nil => exact absurd (List.append_nil place).symm hne
    | cons name names => exact ⟨name, names, rfl⟩

/-- A served file lies below the resolved directory exactly when what was registered
is a directory and the file is not in a sibling with a longer name. -/
theorem served_file_below_iff {files : FileSystem} {tree : Tree} (hfiles : files.Consistent tree)
    {response : HttpResponse} {dir filename : Bytes}
    (h : (serveFile files response dir filename).hasFileBody = true) :
    ∃ place file, tree.Resolves (cString dir) place ∧ tree.Resolves (filepath dir filename) file ∧
      tree.node file = some .regular ∧
      (StrictlyBelow place file ↔
        tree.node place = some .directory ∧ ¬InLongerSibling place file) := by
  obtain ⟨resolvedPath, resolvedDir, fd, st, hpath, hdir, hfind, hopen, hstat, hregular⟩ :=
    serveFile_hasFileBody h
  obtain ⟨file, hfile, rfl⟩ := hfiles.realpath _ _ hpath
  obtain ⟨place, hplace, rfl⟩ := hfiles.realpath _ _ hdir
  obtain ⟨opened, hopened, hnode⟩ := hfiles.openFile _ _ hopen
  -- what is opened is what was resolved
  have hsame : opened = file := tree.resolves_unique hopened hfile
  have hfileNode : tree.node file = some .regular := hsame ▸ hnode st hstat hregular
  have hbegins : render place <+: render file := by simpa using find_starts hfind
  refine ⟨place, file, hplace, hfile, hfileNode, ?_⟩
  rw [strictlyBelow_iff]
  constructor
  · rintro ⟨hbelow, hne⟩
    refine ⟨tree.directory_above (by rw [hfileNode]; exact Option.some_ne_none _) hbelow hne, ?_⟩
    exact fun hsibling => not_prefix_of_inLongerSibling hsibling hbelow
  · rintro ⟨hdirectory, hsibling⟩
    refine ⟨(prefix_render (tree.resolves_names hplace) (tree.resolves_names hfile)
      hbegins).resolve_right hsibling, ?_⟩
    intro heq
    rw [heq, hfileNode] at hdirectory
    cases hdirectory

/-! ## A link to a sibling -/

/-- The calls as the tree itself answers them, with a bound on the walk. Only regular
files are opened, each of one byte. -/
def FileSystem.ofTree (tree : Tree) (fuel : Nat) : FileSystem where
  realpath path :=
    if path = [] then none
    else (tree.walk fuel (Tree.start path tree.cwd) (components path)).map render
  openFile path :=
    if path = [] then none
    else (tree.walk fuel (Tree.start path tree.cwd) (components path)).bind
      (fun place => if tree.node place = some .regular then some 3 else none)
  fstat _ := some ⟨true, 1⟩
  content _ := [0]

theorem FileSystem.consistent_ofTree (tree : Tree) (fuel : Nat) :
    (FileSystem.ofTree tree fuel).Consistent tree where
  realpath := by
    intro path resolved h
    obtain ⟨hpath, h⟩ := Option.ite_none_left_eq_some.mp h
    obtain ⟨place, hwalk, hrender⟩ := Option.map_eq_some_iff.mp h
    exact ⟨place, ⟨hpath, fuel, hwalk⟩, hrender.symm⟩
  openFile := by
    intro path fd h
    obtain ⟨hpath, h⟩ := Option.ite_none_left_eq_some.mp h
    obtain ⟨place, hwalk, hopen⟩ := Option.bind_eq_some_iff.mp h
    obtain ⟨hregular, -⟩ := Option.ite_none_right_eq_some.mp hopen
    exact ⟨place, ⟨hpath, fuel, hwalk⟩, fun _ _ _ => hregular⟩

/-- `/srv/www` with a page and a link to `/srv/www2`, which has a file of its own. -/
def linkedTree : Tree :=
  .ofListing
    [([], .directory), ([text "srv"], .directory), ([text "srv", text "www"], .directory),
      ([text "srv", text "www2"], .directory), ([text "srv", text "www", text "page"], .regular),
      ([text "srv", text "www", text "link"], .symlink (text "/srv/www2")),
      ([text "srv", text "www2", text "secret"], .regular)]
    [] (by decide) (by decide) (by decide)

def linkedFiles : FileSystem := .ofTree linkedTree 16

theorem served_file_below_iff_page :
    (serveFile linkedFiles {} (text "/srv/www") (text "page")).hasFileBody = true ∧
      ∃ place file, linkedTree.Resolves (cString (text "/srv/www")) place ∧
        linkedTree.Resolves (filepath (text "/srv/www") (text "page")) file ∧
        linkedTree.node file = some .regular ∧
        (StrictlyBelow place file ↔
          linkedTree.node place = some .directory ∧ ¬InLongerSibling place file) :=
  have hserved : (serveFile linkedFiles {} (text "/srv/www") (text "page")).hasFileBody = true := by
    decide
  ⟨hserved, served_file_below_iff (FileSystem.consistent_ofTree linkedTree 16) hserved⟩

/-- The file of the sibling is served, although it is not below the directory. -/
theorem linked_sibling_is_served :
    linkedFiles.Consistent linkedTree ∧
      (serveFile linkedFiles {} (text "/srv/www") (text "link/secret")).hasFileBody = true ∧
      linkedTree.Resolves (cString (text "/srv/www")) [text "srv", text "www"] ∧
      linkedTree.Resolves (filepath (text "/srv/www") (text "link/secret"))
        [text "srv", text "www2", text "secret"] ∧
      ¬StrictlyBelow [text "srv", text "www"] [text "srv", text "www2", text "secret"] := by
  refine ⟨FileSystem.consistent_ofTree linkedTree 16, by decide, ⟨by decide, 16, by decide⟩,
    ⟨by decide, 16, by decide⟩, ?_⟩
  rw [strictlyBelow_iff]
  decide

end mymuduo.http_routing

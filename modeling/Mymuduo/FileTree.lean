-- A tree of files with symbolic links, and how a path is walked in it. The text of a
-- resolved path begins with the text of another one in two ways only.
import Mymuduo.Bytes

open List bytes

namespace file_tree

inductive Node where
  | directory
  | regular
  | symlink (target : Bytes)
  | special
  deriving DecidableEq

/-- A name of a file: not empty, and no slash in it. -/
def IsName (name : Bytes) : Prop := name ≠ [] ∧ 47 ∉ name

instance (name : Bytes) : Decidable (IsName name) := inferInstanceAs (Decidable (_ ∧ _))

/-- What stands at each list of names, from the root on, and the working directory. -/
structure Tree where
  node : List Bytes → Option Node
  cwd : List Bytes
  root_directory : node [] = some .directory
  parent_directory : ∀ path name, node (path ++ [name]) ≠ none → node path = some .directory
  cwd_names : ∀ name ∈ cwd, IsName name

def components : Bytes → List Bytes
  | [] => [[]]
  | c :: rest =>
    if c = 47 then [] :: components rest
    else
      match components rest with
      | [] => [[c]]
      | first :: others => (c :: first) :: others

def render (path : List Bytes) : Bytes :=
  if path = [] then text "/" else path.flatMap (fun name => 47 :: name)

theorem slash_notMem_components {path part : Bytes} (h : part ∈ components path) : 47 ∉ part := by
  induction path generalizing part with
  | nil =>
    rw [components, mem_singleton] at h
    rw [h]
    exact not_mem_nil
  | cons c rest ih =>
    unfold components at h
    split at h
    · rcases mem_cons.mp h with rfl | h
      · exact not_mem_nil
      · exact ih h
    · rename_i hc
      split at h
      · rw [mem_singleton.mp h]
        simpa using Ne.symm hc
      · rename_i first others heq
        rcases mem_cons.mp h with rfl | h
        · have hfirst : 47 ∉ first := ih (by rw [heq]; exact mem_cons_self)
          simpa using ⟨Ne.symm hc, hfirst⟩
        · exact ih (by rw [heq]; exact mem_cons_of_mem _ h)

/-! ## Walking a path -/

namespace Tree

variable (tree : Tree)

/-- The directory in which the walk along a text begins. -/
def start (path : Bytes) (current : List Bytes) : List Bytes :=
  if path.head? = some 47 then [] else current

/-- The walk, with a bound on its steps. Only a directory has something behind it. -/
def walk : Nat → List Bytes → List Bytes → Option (List Bytes)
  | _, current, [] => some current
  | 0, _, _ :: _ => none
  | fuel + 1, current, part :: rest =>
    if part = [] ∨ part = text "." then walk fuel current rest
    else if part = text ".." then walk fuel current.dropLast rest
    else
      match tree.node (current ++ [part]) with
      | none => none
      | some .directory => walk fuel (current ++ [part]) rest
      | some (.symlink target) => walk fuel (start target current) (components target ++ rest)
      | some .regular | some .special => if rest = [] then some (current ++ [part]) else none

/-- The path leads to this place. An empty path leads nowhere. -/
def Resolves (path : Bytes) (place : List Bytes) : Prop :=
  path ≠ [] ∧ ∃ fuel, tree.walk fuel (start path tree.cwd) (components path) = some place

variable {current parts place : List Bytes}

theorem walk_succ {fuel : Nat} (h : tree.walk fuel current parts = some place) :
    tree.walk (fuel + 1) current parts = some place := by
  induction fuel generalizing current parts with
  | zero =>
    cases parts with
    | nil => exact h
    | cons part rest => cases h
  | succ fuel ih =>
    cases parts with
    | nil => exact h
    | cons part rest =>
      unfold walk at h ⊢
      split_ifs at h ⊢
      · exact ih h
      · exact ih h
      all_goals
        cases hnode : tree.node (current ++ [part]) with
        | none => rw [hnode] at h; cases h
        | some node =>
          rw [hnode] at h
          cases node with
          | directory | symlink target => exact ih h
          | regular | special => exact h

theorem walk_le {fuel more : Nat} (hle : fuel ≤ more)
    (h : tree.walk fuel current parts = some place) :
    tree.walk more current parts = some place := by
  induction hle with
  | refl => exact h
  | step _ ih => exact tree.walk_succ ih

theorem resolves_unique {path : Bytes} {other : List Bytes} (h : tree.Resolves path place)
    (hother : tree.Resolves path other) : place = other := by
  obtain ⟨-, fuel, hwalk⟩ := h
  obtain ⟨-, more, hmore⟩ := hother
  have hleft := tree.walk_le (Nat.le_max_left fuel more) hwalk
  rw [tree.walk_le (Nat.le_max_right fuel more) hmore] at hleft
  exact (Option.some.inj hleft).symm

theorem walk_names {fuel : Nat} (h : tree.walk fuel current parts = some place)
    (hcurrent : ∀ name ∈ current, IsName name) (hparts : ∀ part ∈ parts, 47 ∉ part) :
    ∀ name ∈ place, IsName name := by
  induction fuel generalizing current parts with
  | zero =>
    cases parts with
    | nil =>
      cases h
      exact hcurrent
    | cons part rest => cases h
  | succ fuel ih =>
    cases parts with
    | nil =>
      cases h
      exact hcurrent
    | cons part rest =>
      have hrest : ∀ part ∈ rest, 47 ∉ part := fun p hp => hparts p (mem_cons_of_mem _ hp)
      unfold walk at h
      split at h
      · exact ih h hcurrent hrest
      · rename_i hstay
        have hpart : IsName part :=
          ⟨fun hnil => hstay (.inl hnil), hparts part mem_cons_self⟩
        have hdeeper : ∀ name ∈ current ++ [part], IsName name :=
          forall_mem_append.mpr ⟨hcurrent, forall_mem_singleton.mpr hpart⟩
        split at h
        · exact ih h (fun name hname => hcurrent name (dropLast_subset _ hname)) hrest
        · cases hnode : tree.node (current ++ [part]) with
          | none => rw [hnode] at h; cases h
          | some node =>
            rw [hnode] at h
            cases node with
            | directory => exact ih h hdeeper hrest
            | symlink target =>
              -- the target is walked from the root or from here, before what is left
              refine ih h ?_ ?_
              · intro name hname
                unfold start at hname
                split at hname
                · cases hname
                · exact hcurrent name hname
              · intro p hp
                rcases mem_append.mp hp with hp | hp
                · exact slash_notMem_components hp
                · exact hrest p hp
            | regular | special =>
              obtain ⟨-, hplace⟩ := Option.ite_none_right_eq_some.mp h
              rw [← Option.some.inj hplace]
              exact hdeeper

theorem resolves_names {path : Bytes} (h : tree.Resolves path place) :
    ∀ name ∈ place, IsName name := by
  obtain ⟨-, fuel, hwalk⟩ := h
  refine tree.walk_names hwalk ?_ (fun part hpart => slash_notMem_components hpart)
  intro name hname
  unfold start at hname
  split at hname
  · cases hname
  · exact tree.cwd_names name hname

theorem directory_above {above : List Bytes} (h : tree.node place ≠ none)
    (hbegins : above <+: place) (hne : above ≠ place) : tree.node above = some .directory := by
  induction place using List.reverseRecOn with
  | nil => exact absurd (prefix_nil.mp hbegins) hne
  | append_singleton parent name ih =>
    have hparent := tree.parent_directory parent name h
    rcases prefix_concat_iff.mp hbegins with heq | hbegins
    · exact absurd heq hne
    · by_cases heq : above = parent
      · rw [heq]
        exact hparent
      · exact ih (by rw [hparent]; exact Option.some_ne_none _) hbegins heq

end Tree

/-! ## Trees from a listing -/

def listed (entries : List (List Bytes × Node)) (path : List Bytes) : Option Node :=
  (entries.find? (fun e => e.1 = path)).map Prod.snd

/-- A listing in which each entry has its directory. -/
def Tree.ofListing (entries : List (List Bytes × Node)) (cwd : List Bytes)
    (hroot : listed entries [] = some .directory)
    (hparent : ∀ e ∈ entries, e.1 ≠ [] → listed entries e.1.dropLast = some .directory)
    (hcwd : ∀ name ∈ cwd, IsName name) : Tree where
  node := listed entries
  cwd := cwd
  root_directory := hroot
  parent_directory := by
    intro path name h
    obtain ⟨node, hnode⟩ := Option.ne_none_iff_exists'.mp h
    obtain ⟨e, hfind, -⟩ := Option.map_eq_some_iff.mp hnode
    have hkey : e.1 = path ++ [name] := by simpa using List.find?_some hfind
    have hdir := hparent e (List.mem_of_find?_eq_some hfind) (by rw [hkey]; simp)
    rwa [hkey, List.dropLast_concat] at hdir
  cwd_names := hcwd

/-! ## Resolved paths as text -/

/-- In or at a sibling whose name goes on behind the name of the place. -/
def InLongerSibling (place other : List Bytes) : Prop :=
  ∃ parent name more below, more ≠ [] ∧ place = parent ++ [name] ∧
    other = parent ++ (name ++ more) :: below

/-- A name that a text begins with, where the text is another name and then ends or
goes on with a slash. -/
theorem prefix_of_prefix_append {name other rest : Bytes} (hname : 47 ∉ name)
    (hrest : rest = [] ∨ rest.head? = some 47) (h : name <+: other ++ rest) : name <+: other := by
  rcases prefix_or_prefix_of_prefix h (prefix_append other rest) with h' | h'
  · exact h'
  · obtain ⟨more, rfl⟩ := h'
    have hmore : more <+: rest := (prefix_append_right_inj other).mp h
    cases more with
    | nil => simp
    | cons c more =>
      exfalso
      rcases hrest with hrest | hrest
      · rw [hrest] at hmore
        exact absurd (prefix_nil.mp hmore) (cons_ne_nil _ _)
      · obtain ⟨tail, htail⟩ := hmore
        rw [← htail] at hrest
        have hc : c = 47 := Option.some.inj hrest
        exact hname (by simp [hc])

theorem head_flatMap (path : List Bytes) :
    path.flatMap (fun name => 47 :: name) = [] ∨
      (path.flatMap (fun name => 47 :: name)).head? = some 47 := by
  cases path with
  | nil => exact .inl rfl
  | cons name path => exact .inr rfl

variable {place other : List Bytes}

/-- The text of one path begins with the text of another: it lies there, or in a
sibling with a longer name. -/
theorem prefix_flatMap (hplace : ∀ name ∈ place, IsName name) (hother : ∀ name ∈ other, IsName name)
    (h : place.flatMap (fun name => 47 :: name) <+: other.flatMap (fun name => 47 :: name)) :
    place <+: other ∨ InLongerSibling place other := by
  induction place generalizing other with
  | nil => exact .inl nil_prefix
  | cons name place ih =>
    cases other with
    | nil => exact absurd (prefix_nil.mp h) (by simp)
    | cons first others =>
      rw [flatMap_cons, flatMap_cons, cons_append, cons_append, cons_prefix_cons] at h
      have hname := (hplace name mem_cons_self).2
      have hfirst := (hother first mem_cons_self).2
      have hbegin : name <+: first :=
        prefix_of_prefix_append hname (head_flatMap others)
          ((prefix_append name _).trans h.2)
      obtain ⟨more, rfl⟩ := hbegin
      have hrest := h.2
      rw [append_assoc, prefix_append_right_inj] at hrest
      by_cases hmore : more = []
      · -- the same name: compare what stands below it
        rw [hmore, nil_append] at hrest
        rw [hmore, append_nil]
        rcases ih (fun n hn => hplace n (mem_cons_of_mem _ hn))
            (fun n hn => hother n (mem_cons_of_mem _ hn)) hrest with hbelow | hsibling
        · exact .inl (cons_prefix_cons.mpr ⟨rfl, hbelow⟩)
        · obtain ⟨parent, last, longer, below, hlonger, hp, ho⟩ := hsibling
          exact .inr ⟨name :: parent, last, longer, below,
            hlonger, by rw [hp]; rfl, by rw [ho]; rfl⟩
      · -- a longer name has no slash in it, so nothing of the place is left
        cases place with
        | nil => exact .inr ⟨[], name, more, others, hmore, rfl, rfl⟩
        | cons second place =>
          exfalso
          cases more with
          | nil => exact hmore rfl
          | cons c more =>
            rw [flatMap_cons, cons_append, cons_append, cons_prefix_cons] at hrest
            exact hfirst (by simp [hrest.1])

theorem not_prefix_of_inLongerSibling (h : InLongerSibling place other) : ¬place <+: other := by
  obtain ⟨parent, name, more, below, hmore, rfl, rfl⟩ := h
  intro hbegins
  rw [prefix_append_right_inj, cons_prefix_cons] at hbegins
  exact hmore (append_right_eq_self.mp hbegins.1.symm)

theorem prefix_render (hplace : ∀ name ∈ place, IsName name) (hother : ∀ name ∈ other, IsName name)
    (h : render place <+: render other) : place <+: other ∨ InLongerSibling place other := by
  by_cases hroot : place = []
  · rw [hroot]
    exact .inl nil_prefix
  unfold render at h
  rw [if_neg hroot] at h
  split at h
  · -- a name is longer than the text of the root
    exfalso
    obtain ⟨name, place, rfl⟩ := exists_cons_of_ne_nil hroot
    have hlen := h.length_le
    have hname := length_pos_iff.mpr (hplace name mem_cons_self).1
    have hslash : (text "/").length = 1 := by decide
    rw [flatMap_cons, length_append, length_cons, hslash] at hlen
    omega
  · exact prefix_flatMap hplace hother h

end file_tree

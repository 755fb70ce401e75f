/-
# ModuleLinker.Proofs.RequiredPath -- which path leads to which module

A path that a module requires is read by taking texts off its two ends: the way up in front, and
behind it the file, or else the slashes. `resolve_exact` says what is left over by this reading. A
module name without a slash is found under two kinds of paths only (`LeadsTo`), and no path is of
these kinds for two such names. A name may end like a file or be empty; the slash in front of the
file and the slashes at the end of a path are what keeps the readings apart.
-/

import Mathlib.Data.List.TakeWhile
import ModuleLinker.Proofs.ModulePath

namespace ModuleLinker.RequireTarget

/-! ## Texts at the ends of a text -/

variable {text rest front : List Char}

theorem after?_eq_some_iff {beginning : List Char} :
    after? beginning text = some rest ↔ text = beginning ++ rest := by
  constructor
  · intro h
    fun_induction after? beginning text with
    | case1 text => exact Option.some.inj h
    | case2 b beginning => cases h
    | case3 b beginning text ih => rw [ih h, List.cons_append]
    | case4 b beginning c text hne => cases h
  · rintro rfl
    exact after?_append beginning rest

theorem before?_eq_some_iff {ending : List Char} :
    before? ending text = some front ↔ text = front ++ ending := by
  constructor
  · intro h
    obtain ⟨found, hfound, rfl⟩ := Option.map_eq_some_iff.1 h
    have hreverse : text.reverse = ending.reverse ++ found := after?_eq_some_iff.1 hfound
    rw [← List.reverse_reverse text, hreverse, List.reverse_append, List.reverse_reverse]
  · rintro rfl
    exact before?_append ending front

/-- Nothing but slashes is taken off the end of a text. -/
theorem exists_slashes (text : List Char) :
    ∃ slashes, text = withoutSlashes text ++ List.replicate slashes '/' := by
  have hslashes : text.reverse.takeWhile (· = '/') =
      List.replicate (text.reverse.takeWhile (· = '/')).length '/' := by
    apply List.eq_replicate_of_mem
    intro c hc
    simpa using List.mem_takeWhile_imp hc
  refine ⟨(text.reverse.takeWhile (· = '/')).length, ?_⟩
  have hcut : text = (text.reverse.dropWhile (· = '/')).reverse ++
      (text.reverse.takeWhile (· = '/')).reverse := by
    rw [← List.reverse_append, List.takeWhile_append_dropWhile, List.reverse_reverse]
  rw [hslashes, List.reverse_replicate] at hcut
  exact hcut

/-- All slashes are taken off, and no more. -/
theorem withoutSlashes_append (h : '/' ∉ front) (slashes : Nat) :
    withoutSlashes (front ++ List.replicate slashes '/') = front := by
  have hkept : front.reverse.dropWhile (· = '/') = front.reverse := by
    rw [List.dropWhile_eq_self_iff]
    intro hpos
    -- the last character of a text without slashes is none of them
    have hmem : front.reverse[0] ∈ front := List.mem_reverse.1 (List.getElem_mem hpos)
    have hne : front.reverse[0] ≠ '/' := fun heq => h (heq ▸ hmem)
    simpa using hne
  rw [withoutSlashes, List.reverse_append, List.reverse_replicate,
    List.dropWhile_append_of_pos (by simp), hkept, List.reverse_reverse]

/-- Slashes behind a text without slashes do not make the ending of a path to a file. -/
theorem append_slashes_ne_index (h : '/' ∉ front) (slashes : Nat) (other : List Char) :
    front ++ List.replicate slashes '/' ≠ other ++ "/index.js".toList := by
  intro heq
  cases slashes with
  | zero =>
      apply h
      rw [List.replicate_zero, List.append_nil] at heq
      rw [heq]
      exact List.mem_append_right other (by decide)
  | succ slashes =>
      -- one text ends with a slash, the other with the letter of the file
      have hlast := congrArg List.getLast? heq
      rw [List.replicate_succ', ← List.append_assoc, List.getLast?_concat,
        List.getLast?_append_of_ne_nil _ (by decide)] at hlast
      revert hlast
      decide

/-! ## Paths to neighbours -/

/-- The path leads to the neighbour directory of that name, or to the file in it. -/
def LeadsTo (path name : String) : Prop :=
  path = "../" ++ name ++ "/index.js" ∨
    ∃ slashes, path = "../" ++ name ++ String.ofList (List.replicate slashes '/')

theorem leadsTo_iff {path name : String} :
    LeadsTo path name ↔
      path.toList = "../".toList ++ (name.toList ++ "/index.js".toList) ∨
        ∃ slashes, path.toList = "../".toList ++ (name.toList ++ List.replicate slashes '/') := by
  unfold LeadsTo
  simp only [← String.toList_inj, String.toList_append, String.toList_ofList, List.append_assoc]

/-- A path to a neighbour is read as its name. -/
theorem neighbour?_eq_some_iff {path name : String} (h : '/' ∉ name.toList) :
    neighbour? path.toList = some name.toList ↔ LeadsTo path name := by
  rw [leadsTo_iff]
  constructor
  · intro hread
    obtain ⟨rest, hrest, hname⟩ := Option.map_eq_some_iff.1 hread
    have hpath := after?_eq_some_iff.1 hrest
    cases hfile : before? "/index.js".toList rest with
    | some front =>
        rw [hfile] at hname
        obtain rfl : front = name.toList := hname
        exact .inl (by rw [hpath, before?_eq_some_iff.1 hfile])
    | none =>
        -- without the file at its end, the rest is the name and slashes behind it
        rw [hfile] at hname
        obtain ⟨slashes, hslashes⟩ := exists_slashes rest
        have hsame : withoutSlashes rest = name.toList := hname
        rw [hsame] at hslashes
        exact .inr ⟨slashes, by rw [hpath, hslashes]⟩
  · rintro (hpath | ⟨slashes, hpath⟩)
    · rw [hpath]
      exact neighbour?_index name.toList
    · have hfile :
          before? "/index.js".toList (name.toList ++ List.replicate slashes '/') = none := by
        rw [Option.eq_none_iff_forall_ne_some]
        intro other hother
        exact append_slashes_ne_index h slashes other (before?_eq_some_iff.1 hother)
      rw [hpath, neighbour?, after?_append, Option.map_some, hfile, Option.getD_none,
        withoutSlashes_append h]

/-- The path to a module's own foreign code leads to no neighbour. -/
theorem not_leadsTo_foreignPath (name : String) : ¬ LeadsTo foreignPath name := by
  have hsecond : foreignPath.toList[1]? = some '/' := by decide
  rw [leadsTo_iff]
  rintro (h | ⟨slashes, h⟩)
  · rw [h] at hsecond
    exact absurd hsecond (by simp)
  · rw [h] at hsecond
    exact absurd hsecond (by simp)

theorem LeadsTo.unique {path name other : String} (h : LeadsTo path name)
    (h' : LeadsTo path other) (hname : '/' ∉ name.toList) (hother : '/' ∉ other.toList) :
    name = other := by
  have hread := (neighbour?_eq_some_iff hname).2 h
  have hread' := (neighbour?_eq_some_iff hother).2 h'
  exact String.toList_inj.1 (Option.some.inj (hread.symm.trans hread'))

/-! ## Targets -/

section Targets

variable {self : ModuleId} {names : List String} {path : String}

theorem resolve_of_leadsTo {name : String} (hname : name ∈ names) (hslash : '/' ∉ name.toList)
    (h : LeadsTo path name) : resolve self names path = .resolved (.regular name) := by
  have hother : path ≠ foreignPath := by
    rintro rfl
    exact not_leadsTo_foreignPath name h
  rw [resolve, if_neg hother, (neighbour?_eq_some_iff hslash).2 h, Option.map_some,
    String.ofList_toList]
  exact if_pos hname

/-- A path that leads nowhere is kept. -/
theorem resolve_of_forall_not_leadsTo (hnames : ∀ name ∈ names, '/' ∉ name.toList)
    (hother : path ≠ foreignPath) (h : ∀ name ∈ names, ¬ LeadsTo path name) :
    resolve self names path = .unresolved path := by
  rw [resolve, if_neg hother]
  cases hread : neighbour? path.toList with
  | none => rfl
  | some chars =>
      have hunknown : String.ofList chars ∉ names := by
        intro hmem
        apply h _ hmem
        rw [← neighbour?_eq_some_iff (hnames _ hmem), hread, String.toList_ofList]
      exact if_neg hunknown

/-- The three ways in which a path is read. -/
theorem resolve_cases (hnames : ∀ name ∈ names, '/' ∉ name.toList) (self : ModuleId)
    (path : String) :
    (path = foreignPath ∧ resolve self names path = .resolved (.foreign self.name)) ∨
    (∃ name ∈ names, LeadsTo path name ∧
      resolve self names path = .resolved (.regular name)) ∨
    (path ≠ foreignPath ∧ (∀ name ∈ names, ¬ LeadsTo path name) ∧
      resolve self names path = .unresolved path) := by
  by_cases hforeign : path = foreignPath
  · exact .inl ⟨hforeign, if_pos hforeign⟩
  · by_cases hleads : ∃ name ∈ names, LeadsTo path name
    · obtain ⟨name, hname, h⟩ := hleads
      exact .inr (.inl ⟨name, hname, h, resolve_of_leadsTo hname (hnames name hname) h⟩)
    · have hnone : ∀ name ∈ names, ¬ LeadsTo path name :=
        fun name hname h => hleads ⟨name, hname, h⟩
      exact .inr (.inr ⟨hforeign, hnone, resolve_of_forall_not_leadsTo hnames hforeign hnone⟩)

theorem resolve_eq_foreign_iff (hnames : ∀ name ∈ names, '/' ∉ name.toList) :
    resolve self names path = .resolved (.foreign self.name) ↔ path = foreignPath := by
  rcases resolve_cases hnames self path with
    ⟨hpath, h⟩ | ⟨name, -, hleads, h⟩ | ⟨hother, -, h⟩
  · exact iff_of_true h hpath
  · have hother : path ≠ foreignPath := fun heq => not_leadsTo_foreignPath name (heq ▸ hleads)
    rw [h]
    exact iff_of_false (by simp [ModuleId.foreign, ModuleId.regular]) hother
  · rw [h]
    exact iff_of_false (by simp) hother

theorem resolve_eq_regular_iff (hnames : ∀ name ∈ names, '/' ∉ name.toList) {name : String} :
    resolve self names path = .resolved (.regular name) ↔ name ∈ names ∧ LeadsTo path name := by
  constructor
  · intro hread
    rcases resolve_cases hnames self path with ⟨-, h⟩ | ⟨known, hknown, hleads, h⟩ | ⟨-, -, h⟩
    · rw [h] at hread
      simp [ModuleId.foreign, ModuleId.regular] at hread
    · obtain rfl : known = name := by
        simpa [ModuleId.regular] using h.symm.trans hread
      exact ⟨hknown, hleads⟩
    · cases h.symm.trans hread
  · rintro ⟨hname, hleads⟩
    exact resolve_of_leadsTo hname (hnames name hname) hleads

theorem resolve_eq_unresolved_iff (hnames : ∀ name ∈ names, '/' ∉ name.toList) {left : String} :
    resolve self names path = .unresolved left ↔
      left = path ∧ path ≠ foreignPath ∧ ∀ name ∈ names, ¬ LeadsTo path name := by
  constructor
  · intro hread
    rcases resolve_cases hnames self path with ⟨-, h⟩ | ⟨_, -, -, h⟩ | ⟨hother, hnone, h⟩
    · cases h.symm.trans hread
    · cases h.symm.trans hread
    · rw [h] at hread
      exact ⟨(RequireTarget.unresolved.inj hread).symm, hother, hnone⟩
  · rintro ⟨rfl, hother, hnone⟩
    exact resolve_of_forall_not_leadsTo hnames hother hnone

/-- The names of the modules being without slashes, a path leads to the foreign code of the module
that requires it, or to a known neighbour, or it is left as it is. These three exclude each other,
and no path leads to two neighbours. -/
theorem resolve_exact (hnames : ∀ name ∈ names, '/' ∉ name.toList) (self : ModuleId)
    (path : String) :
    (resolve self names path = .resolved (.foreign self.name) ↔ path = "./foreign.js") ∧
    (∀ name, resolve self names path = .resolved (.regular name) ↔
      name ∈ names ∧ LeadsTo path name) ∧
    (∀ left, resolve self names path = .unresolved left ↔
      left = path ∧ path ≠ "./foreign.js" ∧ ∀ name ∈ names, ¬ LeadsTo path name) ∧
    ∀ name ∈ names, LeadsTo path name →
      path ≠ "./foreign.js" ∧ ∀ other ∈ names, LeadsTo path other → other = name := by
  refine ⟨resolve_eq_foreign_iff hnames, fun name => resolve_eq_regular_iff hnames,
    fun left => resolve_eq_unresolved_iff hnames, ?_⟩
  intro name hname hleads
  constructor
  · rintro rfl
    exact not_leadsTo_foreignPath name hleads
  · intro other hother hleads'
    exact hleads'.unique hleads (hnames other hother) (hnames name hname)

/-- A name may look like the file. Only one of the paths to it has the file in it. -/
theorem named_like_file_resolves :
    (∀ name ∈ ["index.js", "", "Main"], '/' ∉ name.toList) ∧
    resolve (.regular "Main") ["index.js", "", "Main"] "../index.js//" =
      .resolved (.regular "index.js") ∧
    resolve (.regular "Main") ["index.js", "", "Main"] "..//index.js" = .resolved (.regular "") ∧
    resolve (.regular "Main") ["index.js", "", "Main"] "../Main/index.js/" =
      .unresolved "../Main/index.js/" := by
  have hnames : ∀ name ∈ ["index.js", "", "Main"], '/' ∉ name.toList := by decide
  refine ⟨hnames, ?_, ?_, ?_⟩
  · have hread := (resolve_exact hnames (.regular "Main") "../index.js//").2.1 "index.js"
    exact hread.2 ⟨by decide, .inr ⟨2, by decide⟩⟩
  · have hread := (resolve_exact hnames (.regular "Main") "..//index.js").2.1 ""
    exact hread.2 ⟨by decide, .inl (by decide)⟩
  · have hread := (resolve_exact hnames (.regular "Main") "../Main/index.js/").2.2.1
    refine (hread "../Main/index.js/").2 ⟨rfl, by decide, fun name hname => ?_⟩
    rw [← neighbour?_eq_some_iff (hnames name hname)]
    revert name
    decide

end Targets

end ModuleLinker.RequireTarget

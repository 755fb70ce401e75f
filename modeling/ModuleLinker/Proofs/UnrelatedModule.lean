/-
# ModuleLinker.Proofs.UnrelatedModule -- a module that nobody asks for leaves no trace

A module can be added to a program without changing it, whatever it requires, exports or runs, as
long as no other module has its name and no path that one of them requires would lead to the
regular module of that name. Everything the other modules refer to is then owned by one of them
(`owner_name_mem`), so that the same keys have to be live (`live_insert_iff`), no key of the new
module among them, and elimination drops it before anything is put in order (`link_insert`).

It is the name that counts: the foreign code of a module that is not there makes its name known,
and a require of that name, which would have been copied, becomes one that nothing refers to
(`foreign_name_drops_require`).
-/

import ModuleLinker.Proofs.Idempotence
import ModuleLinker.Proofs.KnownNames

namespace ModuleLinker

variable {front back : List ModuleInput} {extra : ModuleInput}

theorem mem_names_insert (name : String) :
    name ∈ (front ++ extra :: back).map (·.id.name) ↔
      name ∈ (front ++ back).map (·.id.name) ∨ name = extra.id.name := by
  simp only [List.map_append, List.map_cons, List.mem_append, List.mem_cons]
  tauto

/-! ## Loading -/

section Loading

variable {modules : List Module} {m : Module}

theorem exists_forall₂_insert {α β : Type} {R : α → β → Prop} {front back : List α} {x : α}
    {ys : List β} {y : β} (h : List.Forall₂ R (front ++ back) ys) (hxy : R x y) :
    ∃ before after, ys = before ++ after ∧
      List.Forall₂ R (front ++ x :: back) (before ++ y :: after) := by
  induction front generalizing ys with
  | nil => exact ⟨[], ys, rfl, .cons hxy h⟩
  | cons first front ih =>
      obtain ⟨z, rest, hz, hrest, rfl⟩ := List.forall₂_cons_left_iff.1 h
      obtain ⟨before, after, rfl, hinsert⟩ := ih hrest
      exact ⟨z :: before, after, rfl, .cons hz hinsert⟩

/-- The other modules are loaded as they were, on both sides of the new one. -/
theorem loadModules_insert [Script.ParserWording]
    (hloaded : loadModules (front ++ back) = .ok modules)
    (hextra : Module.classify ((front ++ extra :: back).map (·.id.name)) extra = .ok m)
    (hpaths : ∀ input ∈ front ++ back, ∀ path ∈ requiredPaths input,
      RequireTarget.resolve input.id ((front ++ extra :: back).map (·.id.name)) path ≠
        .resolved (.regular extra.id.name)) :
    ∃ before after, modules = before ++ after ∧
      loadModules (front ++ extra :: back) = .ok (before ++ m.analyze :: after) := by
  -- The new name is one more that a path may resolve to, and no path does.
  have hsame : ∀ input ∈ front ++ back, ∀ read,
      Module.classify ((front ++ back).map (·.id.name)) input = .ok read →
      Module.classify ((front ++ extra :: back).map (·.id.name)) input = .ok read := by
    intro input hinput read hread
    have hresolve : ∀ path ∈ requiredPaths input,
        RequireTarget.resolve input.id ((front ++ back).map (·.id.name)) path =
          RequireTarget.resolve input.id ((front ++ extra :: back).map (·.id.name)) path :=
      fun path hpath =>
        RequireTarget.resolve_eq_of_ne mem_names_insert (hpaths input hinput path hpath)
    exact Module.classify_eq_ok_of_resolve hresolve hread
  have hothers : List.Forall₂ (fun input m => ∃ read,
      Module.classify ((front ++ extra :: back).map (·.id.name)) input = .ok read ∧
        read.analyze = m) (front ++ back) modules := by
    refine ((List.forall₂_and_left _ _).2 ⟨hsame, loadModules_eq_ok_iff.1 hloaded⟩).imp ?_
    rintro input _ ⟨hsame, read, hread, rfl⟩
    exact ⟨read, hsame read hread, rfl⟩
  obtain ⟨before, after, rfl, hinsert⟩ := exists_forall₂_insert hothers ⟨m, hextra, rfl⟩
  exact ⟨before, after, rfl, loadModules_eq_ok_iff.2 hinsert⟩

end Loading

/-! ## Reachability -/

section Reachability

variable {inputs : List ModuleInput} {entryPoints : List ModuleId} {before after : List Module}
  {m : Module}

theorem declares_insert_iff {key : Key} {dependencies : List Key} (hkey : key.owner ≠ m.id) :
    Declares (before ++ m :: after) key dependencies ↔
      Declares (before ++ after) key dependencies := by
  have hother : ∀ a ∈ before ++ m :: after, a.id ≠ m.id → a ∈ before ++ after := by
    intro a ha hid
    simp only [List.mem_append, List.mem_cons] at ha ⊢
    rcases ha with ha | rfl | ha
    · exact .inl ha
    · exact absurd rfl hid
    · exact .inr ha
  constructor
  · intro h
    cases h with
    | member ha helement => exact .member (hother _ ha hkey) helement
    | entry ha helement hentry => exact .entry (hother _ ha hkey) helement hentry
  · intro h
    refine h.mono fun a ha => ?_
    simp only [List.mem_append, List.mem_cons] at ha ⊢
    tauto

/-- Beside a module whose name is new, the same keys have to be live. -/
theorem live_insert_iff [Script.ParserWording]
    (hloaded : loadModules inputs = .ok (before ++ after))
    (hname : m.id.name ∉ inputs.map (·.id.name))
    (hentry : ∀ id ∈ entryPoints, id.name ∈ inputs.map (·.id.name)) {key : Key} :
    Live (before ++ m :: after) entryPoints key ↔ Live (before ++ after) entryPoints key := by
  have hother : ∀ key : Key, key.owner.name ∈ inputs.map (·.id.name) → key.owner ≠ m.id :=
    fun key hkey heq => hname (heq ▸ hkey)
  have hdeclared : ∀ key : Key, key.owner.name ∈ inputs.map (·.id.name) →
      IsDeclared (before ++ m :: after) key → IsDeclared (before ++ after) key :=
    fun key hkey ⟨dependencies, h⟩ => ⟨dependencies, (declares_insert_iff (hother key hkey)).1 h⟩
  constructor
  · intro h
    induction h with
    | root hkey hpublic howner => exact .root (hdeclared _ (hentry _ howner) hkey) hpublic howner
    | step _ hkey hdependency hdeclaredDependency ih =>
        obtain ⟨dependencies, hknown⟩ := ih.isDeclared
        have hkey := (declares_insert_iff (hother _ (owner_name_mem hloaded hknown).1)).1 hkey
        have howner := (owner_name_mem hloaded hkey).2 _ hdependency
        exact .step ih hkey hdependency (hdeclared _ howner hdeclaredDependency)
  · intro h
    refine h.mono (fun key dependencies hkey => ?_) fun id hid => hid
    exact (declares_insert_iff (hother _ (owner_name_mem hloaded hkey).1)).2 hkey

/-- Elimination leaves the same beside such a module, which it drops. -/
theorem eliminate_insert [Script.ParserWording]
    (hloaded : loadModules inputs = .ok (before ++ after))
    (hname : m.id.name ∉ inputs.map (·.id.name))
    (hentry : ∀ id ∈ entryPoints, id.name ∈ inputs.map (·.id.name)) :
    eliminate (.compute (definitions (before ++ m :: after)) entryPoints) (before ++ m :: after) =
      eliminate (.compute (definitions (before ++ after)) entryPoints) (before ++ after) := by
  -- No live key belongs to the new module, so that it is left empty and dropped.
  have howner : ∀ key, Live (before ++ m :: after) entryPoints key → key.owner ≠ m.id := by
    rintro key hlive heq
    obtain ⟨dependencies, hdeclares⟩ := ((live_insert_iff hloaded hname hentry).1 hlive).isDeclared
    exact hname (heq ▸ (owner_name_mem hloaded hdeclares).1)
  have hagrees : (Reachability.compute (definitions (before ++ m :: after)) entryPoints).Agrees
      (.compute (definitions (before ++ after)) entryPoints) :=
    agrees_compute (fun key => live_insert_iff hloaded hname hentry)
      fun key dependencies hlive => declares_insert_iff (howner key hlive)
  rw [← hagrees.eliminate_eq (before ++ after)]
  generalize hr : Reachability.compute (definitions (before ++ m :: after)) entryPoints = r
  have hdead : ∀ key : Key, key.owner = m.id → r.isLive key = false := by
    intro key hkey
    rw [Bool.eq_false_iff, ← hr]
    exact fun hlive => howner key (isLive_iff.1 hlive) hkey
  have hempty : (m.eliminate r).isEmpty = true := by
    rw [isEmpty_eliminate, Bool.not_eq_true', Module.hasLive, List.any_eq_false]
    intro element _
    cases element <;> simp [Element.hasLive, hdead, ExportEntry.key]
  simp [eliminate, hempty]

end Reachability

/-! ## Linking -/

section Linking

variable {options : Options} {bundle : Bundle} {m : Module}

/-- A module whose name no other module has, and to whose name no required path of another module
would lead, can be added anywhere in a program that links without changing the program. -/
theorem link_insert [Script.ParserWording] (hlink : link (front ++ back) options = .ok bundle)
    (hextra : Module.classify ((front ++ extra :: back).map (·.id.name)) extra = .ok m)
    (hname : ∀ input ∈ front ++ back, input.id.name ≠ extra.id.name)
    (hpaths : ∀ input ∈ front ++ back, ∀ path ∈ requiredPaths input,
      RequireTarget.resolve input.id ((front ++ extra :: back).map (·.id.name)) path ≠
        .resolved (.regular extra.id.name)) :
    link (front ++ extra :: back) options = .ok bundle := by
  obtain ⟨modules, hsurvivors, hemit⟩ := link_eq_ok_iff.1 hlink
  obtain ⟨hknown, loaded, hloaded, rfl⟩ := survivors_eq_ok_iff.1 hsurvivors
  obtain ⟨before, after, rfl, hinsert⟩ := loadModules_insert hloaded hextra hpaths
  have hfresh : m.analyze.id.name ∉ (front ++ back).map (·.id.name) := by
    intro hmem
    obtain ⟨input, hinput, heq⟩ := List.mem_map.1 hmem
    have hid : m.analyze.id = extra.id := id_of_classify (m := m) hextra
    exact hname input hinput (heq.trans (congrArg ModuleId.name hid))
  have hentry : ∀ id ∈ options.allEntryPoints, id.name ∈ (front ++ back).map (·.id.name) := by
    intro id hid
    obtain ⟨input, hinput, rfl⟩ := List.mem_map.1 (hknown id hid)
    exact List.mem_map_of_mem hinput
  refine link_eq_ok_iff.2 ⟨_, survivors_eq_ok_iff.2 ⟨fun id hid => ?_, _, hinsert, rfl⟩, ?_⟩
  · have hmem := hknown id hid
    simp only [List.map_append, List.map_cons, List.mem_append, List.mem_cons] at hmem ⊢
    tauto
  · rwa [eliminate_insert hloaded hfresh hentry]

/-- A module that requires one that is not there. -/
def loneInput : ModuleInput := ⟨.regular "A", none, "var x=require(\"../X\");exports.a=x.y"⟩

/-- Its program, with the require as it stands in the text. -/
def loneProgram : String :=
  "var PS = \x7b\x7d;\n(function(exports) \x7b\n  var x=require(\"../X\");\n  exports.a=x.y\n" ++
  "\x7d)(PS[\"A\"] = PS[\"A\"] || \x7b\x7d);\n"

/-- A module that requires the other one and calls something. -/
def busyInput : ModuleInput := ⟨.regular "B", none, "var a=require(\"../A\");f(a.a)"⟩

/-- In front of the other module it leaves no trace. -/
theorem busy_module_dropped :
    link [loneInput] { entryPoints := [.regular "A"] } = .ok ⟨loneProgram, none⟩ ∧
      (∃ m, Module.classify ["B", "A"] busyInput = .ok m) ∧
      loneInput.id.name ≠ busyInput.id.name ∧
      (requiredPaths loneInput = ["../X"] ∧
        RequireTarget.resolve loneInput.id ["B", "A"] "../X" ≠
          .resolved (.regular busyInput.id.name)) ∧
      link [busyInput, loneInput] { entryPoints := [.regular "A"] } = .ok ⟨loneProgram, none⟩ := by
  have hlink : link [loneInput] { entryPoints := [.regular "A"] } = .ok ⟨loneProgram, none⟩ :=
    eq_ok_of_toOption (by decide +kernel)
  have hextra : (Module.classify ["B", "A"] busyInput).toOption.isSome = true := by decide +kernel
  obtain ⟨m, hm⟩ := Option.isSome_iff_exists.1 hextra
  have hname : loneInput.id.name ≠ busyInput.id.name := by decide
  have hrequired : requiredPaths loneInput = ["../X"] := by decide +kernel
  have hresolve : RequireTarget.resolve loneInput.id ["B", "A"] "../X" ≠
      .resolved (.regular busyInput.id.name) := by decide +kernel
  have hnames : ∀ input ∈ [loneInput], input.id.name ≠ busyInput.id.name := by simpa using hname
  have hpaths : ∀ input ∈ [loneInput], ∀ path ∈ requiredPaths input,
      RequireTarget.resolve input.id ["B", "A"] path ≠
        .resolved (.regular busyInput.id.name) := by
    simpa [hrequired] using hresolve
  have hinsert := @link_insert [] [loneInput] busyInput
  simp only [List.nil_append, List.map_cons, List.map_nil] at hinsert
  exact ⟨hlink, ⟨m, eq_ok_of_toOption hm⟩, hname, ⟨hrequired, hresolve⟩,
    hinsert hlink (eq_ok_of_toOption hm) hnames hpaths⟩

/-- The foreign code of a module that is not there. -/
def strayInput : ModuleInput := ⟨.foreign "X", none, "exports.y=1"⟩

def unusedInput : ModuleInput := ⟨.regular "A", none, "var x=require(\"../X\");exports.a=1"⟩

def unusedProgram : String :=
  "var PS = \x7b\x7d;\n(function(exports) \x7b\n  var x=require(\"../X\");\n  exports.a=1\n" ++
  "\x7d)(PS[\"A\"] = PS[\"A\"] || \x7b\x7d);\n"

/-- It is not enough that no path leads to the new module itself: the name of foreign code makes a
require of the regular module of that name one that nothing refers to. -/
theorem foreign_name_drops_require :
    ¬ ∀ (front back : List ModuleInput) (extra : ModuleInput) (options : Options) (bundle : Bundle)
        (m : Module), link (front ++ back) options = .ok bundle →
        Module.classify ((front ++ extra :: back).map (·.id.name)) extra = .ok m →
        (∀ input ∈ front ++ back, input.id.name ≠ extra.id.name) →
        (∀ input ∈ front ++ back, ∀ path ∈ requiredPaths input,
          RequireTarget.resolve input.id ((front ++ extra :: back).map (·.id.name)) path ≠
            .resolved extra.id) →
        extra.id ∉ options.allEntryPoints →
        link (front ++ extra :: back) options = .ok bundle := by
  intro h
  have hlink : link [unusedInput] { entryPoints := [.regular "A"] } = .ok ⟨unusedProgram, none⟩ :=
    eq_ok_of_toOption (by decide +kernel)
  have hextra : (Module.classify ["A", "X"] strayInput).toOption.isSome = true := by decide +kernel
  obtain ⟨m, hm⟩ := Option.isSome_iff_exists.1 hextra
  have hnames : ∀ input ∈ [unusedInput], input.id.name ≠ strayInput.id.name := by
    simp [unusedInput, strayInput, ModuleId.regular, ModuleId.foreign]
  have hpaths : ∀ input ∈ [unusedInput], ∀ path ∈ requiredPaths input,
      RequireTarget.resolve input.id ["A", "X"] path ≠ .resolved strayInput.id := by
    have hrequired : requiredPaths unusedInput = ["../X"] := by decide +kernel
    have hresolve : RequireTarget.resolve unusedInput.id ["A", "X"] "../X" ≠
        .resolved strayInput.id := by decide +kernel
    simpa [hrequired] using hresolve
  have hentry : strayInput.id ∉ ({ entryPoints := [.regular "A"] } : Options).allEntryPoints := by
    decide
  have hdiffers : (link [unusedInput, strayInput] { entryPoints := [.regular "A"] }).toOption ≠
      some ⟨unusedProgram, none⟩ := by
    decide +kernel
  have hinsert := h [unusedInput] [] strayInput
  simp only [List.append_nil, List.singleton_append, List.map_cons, List.map_nil] at hinsert
  exact hdiffers (congrArg Except.toOption
    (hinsert _ _ m hlink (eq_ok_of_toOption hm) hnames hpaths hentry))

end Linking

end ModuleLinker

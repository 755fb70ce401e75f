/-
# ModuleLinker.Proofs.LoadOrder -- a required module stands in front

A module that requires another one stands behind it in the program unless the required module leads
back to it. The graph of the identifiers that the traversal goes over is that of the modules
(`Loads.mem_requiredAmong`, `exists_reaches_of_leads`), so that this follows from the order of the
traversal (`loadOrder_sublist`).

`required_module_first` carries it over to the text: the wrapper of the required module stands in
front of that of the other. Where no requires lead back at all, the line that a require became
therefore comes behind the last line of the module that it reads.
-/

import Mathlib.Data.List.Nodup
import ModuleLinker.Proofs.Postorder
import ModuleLinker.Proofs.Stages

namespace ModuleLinker

open Relation

variable {modules : List Module} {a b : Module}

/-! ## Modules and their identifiers -/

theorem mem_required_iff {m : Module} {id : ModuleId} :
    id ∈ m.required ↔ ∃ span binder, Element.require span binder (.resolved id) ∈ m.elements := by
  rw [Module.required, List.mem_filterMap]
  constructor
  · rintro ⟨element, hmem, hrequired⟩
    unfold Element.required? at hrequired
    split at hrequired
    · obtain rfl := Option.some.inj hrequired
      exact ⟨_, _, hmem⟩
    · cases hrequired
  · rintro ⟨span, binder, hmem⟩
    exact ⟨_, hmem, rfl⟩

/-- A module is found under its identifier where no other one has it. -/
theorem lastWithId?_eq_some_iff (hids : (modules.map (·.id)).Nodup) {id : ModuleId} :
    lastWithId? modules id = some a ↔ a ∈ modules ∧ a.id = id := by
  constructor
  · intro h
    have hid : a.id = id := by simpa using List.find?_some h
    exact ⟨List.mem_reverse.1 (List.mem_of_find?_eq_some h), hid⟩
  · rintro ⟨ha, rfl⟩
    have hfound : (lastWithId? modules a.id).isSome := by
      rw [lastWithId?, List.find?_isSome]
      exact ⟨a, List.mem_reverse.2 ha, by simp⟩
    obtain ⟨m, hm⟩ := Option.isSome_iff_exists.1 hfound
    have hid : m.id = a.id := by simpa using List.find?_some hm
    have hmem : m ∈ modules := List.mem_reverse.1 (List.mem_of_find?_eq_some hm)
    rw [hm, List.inj_on_of_nodup_map hids hmem ha hid]

theorem identifiers_perm (hids : (modules.map (·.id)).Nodup) :
    (identifiers modules).Perm (modules.map (·.id)) := by
  have hdistinct : (distinct (modules.map (·.id))).Perm (modules.map (·.id)) :=
    (List.perm_ext_iff_of_nodup (distinct_nodup _) hids).2 fun _ => mem_distinct
  exact (sorted_perm _ _).trans hdistinct

theorem mem_identifiers (hids : (modules.map (·.id)).Nodup) {id : ModuleId} :
    id ∈ identifiers modules ↔ ∃ m ∈ modules, m.id = id := by
  rw [(identifiers_perm hids).mem_iff, List.mem_map]

/-! ## The graph of the modules -/

/-- Both are modules of the program, and the first requires the second. -/
def Loads (modules : List Module) (a b : Module) : Prop :=
  a ∈ modules ∧ b ∈ modules ∧ b.id ∈ a.required

theorem mem_requiredAmong_iff (hids : (modules.map (·.id)).Nodup) (ha : a ∈ modules)
    {id : ModuleId} :
    id ∈ requiredAmong (identifiers modules) modules a.id ↔ ∃ b, b.id = id ∧ Loads modules a b := by
  have hfound : lastWithId? modules a.id = some a := (lastWithId?_eq_some_iff hids).2 ⟨ha, rfl⟩
  simp only [requiredAmong, hfound, mem_distinct, List.mem_filter, List.contains_iff_mem,
    mem_identifiers hids]
  constructor
  · rintro ⟨hrequired, b, hb, rfl⟩
    exact ⟨b, rfl, ha, hb, hrequired⟩
  · rintro ⟨b, rfl, -, hb, hrequired⟩
    exact ⟨hrequired, b, hb, rfl⟩

/-- The edges stay among the identifiers of the modules. -/
theorem requiredAmong_subset (hids : (modules.map (·.id)).Nodup) :
    ∀ v ∈ identifiers modules, ∀ w ∈ requiredAmong (identifiers modules) modules v,
      w ∈ identifiers modules := by
  intro v hv w hw
  obtain ⟨a, ha, rfl⟩ := (mem_identifiers hids).1 hv
  obtain ⟨b, rfl, -, hb, -⟩ := (mem_requiredAmong_iff hids ha).1 hw
  exact (mem_identifiers hids).2 ⟨b, hb, rfl⟩

/-- A way between identifiers is one between the modules. -/
theorem exists_reaches_of_leads (hids : (modules.map (·.id)).Nodup) (hb : b ∈ modules)
    {id : ModuleId}
    (h : Leads (requiredAmong (identifiers modules) modules) b.id id) :
    ∃ a ∈ modules, a.id = id ∧ ReflTransGen (Loads modules) b a := by
  induction h with
  | refl => exact ⟨b, hb, rfl, .refl⟩
  | tail _ hedge ih =>
      obtain ⟨m, hm, rfl, hreaches⟩ := ih
      obtain ⟨a, rfl, hloads⟩ := (mem_requiredAmong_iff hids hm).1 hedge
      exact ⟨a, hloads.2.1, rfl, hreaches.tail hloads⟩

/-! ## The order of the modules -/

/-- Ordering modules with different identifiers only reorders them. -/
theorem loadOrder_perm (hids : (modules.map (·.id)).Nodup) : (loadOrder modules).Perm modules := by
  have hnodup : (identifiers modules).Nodup := (identifiers_perm hids).nodup_iff.2 hids
  have hpostorder := postorder_perm hnodup (requiredAmong_subset hids)
  have hfound : (modules.map (·.id)).filterMap (lastWithId? modules) = modules := by
    have hself : ∀ m ∈ modules, lastWithId? modules m.id = some m :=
      fun m hm => (lastWithId?_eq_some_iff hids).2 ⟨hm, rfl⟩
    rw [List.filterMap_map]
    calc modules.filterMap (lastWithId? modules ∘ (·.id))
        = modules.filterMap some := List.filterMap_congr hself
      _ = modules := List.filterMap_some
  have hperm := (hpostorder.trans (identifiers_perm hids)).filterMap (lastWithId? modules)
  rwa [hfound] at hperm

/-- A required module stands in front of the one that requires it, unless it leads back there. -/
theorem loadOrder_sublist (hids : (modules.map (·.id)).Nodup) (hne : a ≠ b)
    (hloads : Loads modules a b) (hback : ¬ ReflTransGen (Loads modules) b a) :
    [b, a].Sublist (loadOrder modules) := by
  have ha : a ∈ modules := hloads.1
  have hb : b ∈ modules := hloads.2.1
  have hedges := requiredAmong_subset hids
  have hnodup : (identifiers modules).Nodup := (identifiers_perm hids).nodup_iff.2 hids
  have hmem : a.id ∈ postorder (identifiers modules)
      (requiredAmong (identifiers modules) modules) := by
    rw [(postorder_perm hnodup hedges).mem_iff]
    exact (mem_identifiers hids).2 ⟨a, ha, rfl⟩
  obtain ⟨before, after, hsplit⟩ := List.append_of_mem hmem
  have hedge : b.id ∈ requiredAmong (identifiers modules) modules a.id :=
    (mem_requiredAmong_iff hids ha).2 ⟨b, rfl, hloads⟩
  -- A successor that does not stand in front would lead back, which `hback` excludes.
  have hbefore : b.id ∈ before := by
    rcases postorder_ordered hedges hsplit b.id hedge with hbefore | hleads
    · exact hbefore
    · obtain ⟨m, hm, hid, hreaches⟩ := exists_reaches_of_leads hids hb hleads
      obtain rfl := List.inj_on_of_nodup_map hids hm ha hid
      exact absurd hreaches hback
  have hpair : [b.id, a.id].Sublist (postorder (identifiers modules)
      (requiredAmong (identifiers modules) modules)) := by
    rw [hsplit]
    exact (List.singleton_sublist.2 hbefore).append
      (List.singleton_sublist.2 List.mem_cons_self)
  have hfound : [b.id, a.id].filterMap (lastWithId? modules) = [b, a] := by
    simp [(lastWithId?_eq_some_iff hids).2 ⟨ha, rfl⟩, (lastWithId?_eq_some_iff hids).2 ⟨hb, rfl⟩]
  have hsublist := hpair.filterMap (lastWithId? modules)
  rwa [hfound] at hsublist

/-! ## The order in the text -/

section Text

open Emission

variable {setting : Setting} {outputFile : Option String}

/-- The wrapper of the first module stands in front of that of the second. -/
def Precedes (wrappers : List (Wrapper setting outputFile)) (first second : Module) : Prop :=
  ∃ w w' : Wrapper setting outputFile, w.content = first ∧ w'.content = second ∧
    [w, w'].Sublist wrappers

theorem precedes_of_sublist {wrappers : List (Wrapper setting outputFile)} {first second : Module}
    (h : [first, second].Sublist (wrappers.map (·.content))) : Precedes wrappers first second := by
  obtain ⟨pair, hpair, heq⟩ := List.sublist_map_iff.1 h
  obtain ⟨w, rest, rfl, hfirst, heq⟩ := List.map_eq_cons_iff.1 heq.symm
  obtain ⟨w', rest, rfl, hsecond, hnil⟩ := List.map_eq_cons_iff.1 heq
  obtain rfl := List.map_eq_nil_iff.1 hnil
  exact ⟨w, w', hfirst, hsecond, hpair⟩

/-- What a module that is copied line by line makes of the require of a module of the program. -/
theorem elementLines_require {m : Module} {file : Option String} {span : LineSpan} {binder : String}
    {id : ModuleId} (hregular : m.id.isForeign = false) (hid : id ∈ setting.present) :
    elementLines setting m file (.require span binder (.resolved id)) =
      .ok [copied file ("  var " ++ binder ++ " = " ++ slot setting.globalObject id.name ++ ";")
        span.firstLine] :=
  elementLines_eq_ok_iff.2 (.rewritten span binder hregular hid)

/-- The wrapper of a required module stands in front of that of the module which requires it, unless
the required module leads back to it. Where no module leads back to itself, the line that a require
became comes behind the wrapper of the module that it reads. -/
theorem required_module_first [Script.ParserWording] {inputs : List ModuleInput} {options : Options}
    {bundle : Bundle} (hids : (inputs.map (·.id)).Nodup)
    (hlink : link inputs options = .ok bundle) :
    ∃ modules, survivors inputs options = .ok modules ∧
      ∃ wrappers : List (Wrapper (settingOf (loadOrder modules) options) options.outputFile),
        (wrappers.map (·.content)).Perm modules ∧
        bundle.code = joined (assembled options wrappers) ∧
        (∀ a b, a ≠ b → Loads modules a b → ¬ ReflTransGen (Loads modules) b a →
          Precedes wrappers b a) ∧
        ((∀ m, ¬ TransGen (Loads modules) m m) →
          ∀ a ∈ modules, a.id.isForeign = false → ∀ b ∈ modules, ∀ span binder,
          .require span binder (.resolved b.id) ∈ a.elements →
          ∃ w w' : Wrapper (settingOf (loadOrder modules) options) options.outputFile,
            w.content = b ∧ w'.content = a ∧ [w, w'].Sublist wrappers ∧
            ∃ line front back, w'.body = front ++ line :: back ∧
              elementLines (settingOf (loadOrder modules) options) a
                (sourceFile options.outputFile a) (.require span binder (.resolved b.id)) =
                  .ok [line] ∧
              line.text = "  var " ++ binder ++ " = " ++ slot options.globalObject b.id.name ++
                ";") := by
  obtain ⟨modules, hsurvivors, hemit⟩ := link_eq_ok_iff.1 hlink
  obtain ⟨wrappers, hcontents, hcode, -⟩ := emit_eq_ok_iff.1 hemit
  have hids : (modules.map (·.id)).Nodup := nodup_of_survivors hids hsurvivors
  have hperm : (loadOrder modules).Perm modules := loadOrder_perm hids
  have hfirst : ∀ a b, a ≠ b → Loads modules a b → ¬ ReflTransGen (Loads modules) b a →
      Precedes wrappers b a := by
    intro a b hne hloads hback
    apply precedes_of_sublist
    rw [hcontents]
    exact loadOrder_sublist hids hne hloads hback
  refine ⟨modules, hsurvivors, wrappers, by rwa [hcontents], hcode, hfirst, ?_⟩
  intro hacyclic a ha hregular b hb span binder hmem
  have hloads : Loads modules a b := ⟨ha, hb, mem_required_iff.2 ⟨span, binder, hmem⟩⟩
  have hne : a ≠ b := by
    rintro rfl
    exact hacyclic a (.single hloads)
  have hback : ¬ ReflTransGen (Loads modules) b a :=
    fun hback => hacyclic a (TransGen.head' hloads hback)
  obtain ⟨w, w', hw, hw', hsublist⟩ := hfirst a b hne hloads hback
  have hpresent : b.id ∈ (settingOf (loadOrder modules) options).present :=
    List.mem_map.2 ⟨b, hperm.mem_iff.2 hb, rfl⟩
  -- The wrapper of `a` has the lines of all elements of `a` in its body, this one among them.
  have hbody := w'.isBody
  rw [hw'] at hbody
  obtain ⟨front, lines, back, hlines, hsplit⟩ := exists_elementLines_of_mem hbody hmem
  have hline := hlines
  rw [elementLines_require hregular hpresent] at hline
  obtain rfl := Except.ok.inj hline
  exact ⟨w, w', hw, hw', hsublist, _, front, back, hsplit, hlines, rfl⟩

/-- A module `A` that requires `B`, in front of `B`. -/
def neighbours : List ModuleInput :=
  [⟨.regular "A", none, "var b=require(\"../B\");exports.a=b.c"⟩,
    ⟨.regular "B", none, "exports.c=1"⟩]

/-- The program of both modules, `B` first. -/
def neighboursProgram : String :=
  "var PS = \x7b\x7d;\n(function(exports) \x7b\n  exports.c=1\n\x7d)(PS[\"B\"] = PS[\"B\"] || \x7b\x7d);\n" ++
  "(function(exports) \x7b\n  var b = PS[\"B\"];\n  exports.a=b.c\n\x7d)(PS[\"A\"] = PS[\"A\"] || \x7b\x7d);\n"

theorem survivors_neighbours :
    ∃ a b, survivors neighbours { entryPoints := [.regular "A"] } = .ok [a, b] ∧
      a.id = .regular "A" ∧ b.id = .regular "B" ∧
        a.required = [.regular "B"] ∧ b.required = [] := by
  have h : ((survivors neighbours { entryPoints := [.regular "A"] }).toOption.map fun modules =>
      modules.map fun m => (m.id, m.required)) =
      some [(.regular "A", [.regular "B"]), (.regular "B", [])] := by
    decide +kernel
  obtain ⟨modules, hmodules, hlist⟩ := Option.map_eq_some_iff.1 h
  obtain ⟨a, rest, rfl, ha, hrest⟩ := List.map_eq_cons_iff.1 hlist
  obtain ⟨b, rest, rfl, hb, hnil⟩ := List.map_eq_cons_iff.1 hrest
  obtain rfl := List.map_eq_nil_iff.1 hnil
  obtain ⟨hida, hrequireda⟩ := Prod.mk.inj ha
  obtain ⟨hidb, hrequiredb⟩ := Prod.mk.inj hb
  exact ⟨a, b, eq_ok_of_toOption hmodules, hida, hidb, hrequireda, hrequiredb⟩

/-- `A` requires `B`, no module leads back to itself, and `B` is written in front of `A`. -/
theorem required_neighbour_first :
    (neighbours.map (·.id)).Nodup ∧
      link neighbours { entryPoints := [.regular "A"] } = .ok ⟨neighboursProgram, none⟩ ∧
      ∃ a b, survivors neighbours { entryPoints := [.regular "A"] } = .ok [a, b] ∧
        (a.id = .regular "A" ∧ b.id = .regular "B") ∧ (a ≠ b ∧ Loads [a, b] a b ∧
        ¬ ReflTransGen (Loads [a, b]) b a ∧ ∀ m, ¬ TransGen (Loads [a, b]) m m) ∧
        ∃ wrappers : List (Wrapper
            (settingOf (loadOrder [a, b]) { entryPoints := [.regular "A"] }) none),
          Precedes wrappers b a ∧
          neighboursProgram = joined (assembled { entryPoints := [.regular "A"] } wrappers) := by
  have hids : (neighbours.map (·.id)).Nodup := by decide
  have hlink : link neighbours { entryPoints := [.regular "A"] } = .ok ⟨neighboursProgram, none⟩ :=
    eq_ok_of_toOption (by decide +kernel)
  obtain ⟨a, b, hsurvivors, hida, hidb, hrequireda, hrequiredb⟩ := survivors_neighbours
  have hne : a ≠ b := by
    rintro rfl
    rw [hida] at hidb
    exact absurd hidb (by decide)
  have hloads : Loads [a, b] a b := ⟨by simp, by simp, by simp [hrequireda, hidb]⟩
  -- The only edge leads from `a` to `b`.
  have honly : ∀ m m', Loads [a, b] m m' → m = a ∧ m' = b := by
    intro m m' h
    have hm : m = a := by
      rcases List.mem_pair.1 h.1 with rfl | rfl
      · rfl
      · exact absurd h.2.2 (by simp [hrequiredb])
    have hid : m'.id = .regular "B" := by
      have hmem := h.2.2
      rwa [hm, hrequireda, List.mem_singleton] at hmem
    refine ⟨hm, ?_⟩
    rcases List.mem_pair.1 h.2.1 with rfl | rfl
    · rw [hida] at hid
      exact absurd hid (by decide)
    · rfl
  have hback : ¬ ReflTransGen (Loads [a, b]) b a := by
    intro h
    rcases h.cases_head with heq | ⟨m, hfirst, -⟩
    · exact hne heq.symm
    · exact hne (honly b m hfirst).1.symm
  have hacyclic : ∀ m, ¬ TransGen (Loads [a, b]) m m := by
    intro m h
    obtain ⟨_, hfirst, -⟩ := TransGen.head'_iff.1 h
    obtain ⟨_, -, hlast⟩ := TransGen.tail'_iff.1 h
    exact hne ((honly _ _ hfirst).1.symm.trans (honly _ _ hlast).2)
  obtain ⟨modules, hmodules, wrappers, -, hcode, hprecedes, -⟩ := required_module_first hids hlink
  obtain rfl : [a, b] = modules := Except.ok.inj (hsurvivors.symm.trans hmodules)
  exact ⟨hids, hlink, a, b, hsurvivors, ⟨hida, hidb⟩, ⟨hne, hloads, hback, hacyclic⟩, wrappers,
    hprecedes a b hne hloads hback, hcode⟩

end Text

end ModuleLinker

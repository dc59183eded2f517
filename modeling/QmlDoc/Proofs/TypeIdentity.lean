import QmlDoc.Disk.Tree
import QmlDoc.Filter
import QmlDoc.Proofs.ModuleEntries

set_option autoImplicit false

namespace QmlDoc

theorem nameParts_intercalate (names : List String) (nonempty : names ≠ []) :
    nameParts (".".intercalate names) = names.flatMap nameParts := by
  induction names with
  | nil => exact absurd rfl nonempty
  | cons name names ih =>
      cases names with
      | nil => simp
      | cons next later =>
          have apart : (".".intercalate (name :: next :: later)).toList =
              name.toList ++ '.' :: (".".intercalate (next :: later)).toList := by
            simp [String.intercalate_cons_cons]
          rw [nameParts, apart, List.splitOn_append_cons_self, List.map_append, List.flatMap_cons,
            ← ih (by simp)]
          rfl

theorem nameParts_of_dotless {name : String} (dotless : '.' ∉ name.toList) :
    nameParts name = [name] := by
  rw [nameParts, List.splitOn_eq_singleton dotless, List.map_singleton, String.ofList_toList]

namespace Identity

def moduleParts (name : String) : List String :=
  if name = "" then [] else nameParts name

theorem nameParts_qualify (own : Identity) (dotless : '.' ∉ own.name.toList)
    (namespaces : List String) :
    nameParts (own.qualify namespaces).name =
      namespaces.flatMap nameParts ++ moduleParts own.moduleName ++ [own.name] := by
  rw [qualify]
  dsimp only
  rw [nameParts_intercalate _ (by simp), List.flatMap_append, List.flatMap_append, moduleParts,
    List.flatMap_singleton, nameParts_of_dotless dotless]
  split <;> simp

/-- The path in an entry of a module leads from its directory to the file. -/
def LeadsTo (disk : Disk) (dir file path : String) : Prop :=
  disk.isFile (Path.join dir path) = true ∧ disk.sameFile file (Path.join dir path) = .ok true

instance (disk : Disk) (dir file path : String) : Decidable (LeadsTo disk dir file path) :=
  inferInstanceAs (Decidable (_ ∧ _))

variable {disk : Disk} {file : String} {node : Node}

theorem lookup_of_isFile {path : String} (isFile : disk.isFile path = true) :
    ∃ key bytes, disk.lookup path = .ok (.file key bytes) := by
  rw [Disk.isFile] at isFile
  split at isFile
  · rename_i key bytes found
    exact ⟨key, bytes, found⟩
  · cases isFile

/-- What is there can be compared with a file. -/
theorem sameFile_eq_ok (present : disk.lookup file = .ok node) {other : String}
    (isFile : disk.isFile other = true) : ∃ same, disk.sameFile file other = .ok same := by
  obtain ⟨key, bytes, found⟩ := lookup_of_isFile isFile
  rw [Disk.sameFile, present, found]
  cases node with
  | file => exact ⟨_, rfl⟩
  | directory => exact ⟨_, rfl⟩

theorem describes_eq (present : disk.lookup file = .ok node) (dir path : String) :
    describes disk dir file path = .ok (decide (LeadsTo disk dir file path)) := by
  rw [describes]
  by_cases isFile : disk.isFile (Path.join dir path) = true
  · obtain ⟨same, compared⟩ := sameFile_eq_ok present isFile
    simp [isFile, compared, LeadsTo]
  · simp [isFile, LeadsTo]

theorem findEntry_eq {α : Type} (present : disk.lookup file = .ok node) (dir : String)
    (path : α → String) (entries : List α) :
    findEntry disk dir file path entries =
      .ok (entries.find? fun entry => LeadsTo disk dir file (path entry)) := by
  induction entries with
  | nil => rfl
  | cons entry later ih =>
      rw [findEntry, describes_eq present, List.find?_cons]
      cases decide (LeadsTo disk dir file (path entry)) with
      | true => rfl
      | false => exact ih

/-- The nearest description above a file, and its text. -/
structure Described (disk : Disk) (file description text : String) : Prop where
  nearest : ModuleFile.find? disk.isFile file = some description
  content : ∃ bytes, disk.read description = .ok bytes ∧ Text.decode bytes = .ok text

/-- Name and version of the type of a file: those of the first entry that leads to it, or else the
name of the file up to its first dot. -/
inductive TypeIs (leads : String → Prop) (file : String) (objects : List ModuleFile.ObjectType) :
    String → Option String → Prop
  | listed {earlier later : List ModuleFile.ObjectType} {entry : ModuleFile.ObjectType}
      (order : objects = earlier ++ entry :: later) (here : leads entry.path)
      (first : ∀ other ∈ earlier, ¬leads other.path) :
      TypeIs leads file objects entry.name (some entry.version)
  | unlisted (absent : ∀ entry ∈ objects, ¬leads entry.path) :
      TypeIs leads file objects
        (String.ofList ((Path.basename file).toList.takeWhile (· ≠ '.'))) none

theorem TypeIs.dotless {leads : String → Prop} {text name : String} {version : Option String}
    (isType : TypeIs leads file (ModuleFile.objectTypes text) name version) :
    '.' ∉ name.toList := by
  cases isType with
  | @listed earlier later entry order here first =>
      have finds := (ModuleFile.objectTypes_iff text _).mpr rfl
      obtain ⟨-, -, -, -, nameRun, -⟩ := finds.spelled entry (by rw [order]; simp)
      exact fun dotted => absurd (nameRun.2 '.' dotted) (by decide)
  | unlisted absent =>
      intro dotted
      rw [String.toList_ofList] at dotted
      simpa using List.mem_takeWhile_imp dotted

/-- A file is internal if an internal entry leads to it. Otherwise its own identity is that of its
type, under the name of the module. -/
theorem inModule_cases (present : disk.lookup file = .ok node) (description text : String) :
    let leads := LeadsTo disk (Path.dirname description) file
    (∃ entry ∈ ModuleFile.internalTypes text, leads entry.path) ∧
        inModule disk file description text = .ok none ∨
      (∀ entry ∈ ModuleFile.internalTypes text, ¬leads entry.path) ∧
        ∃ own, inModule disk file description text = .ok (some own) ∧
          TypeIs leads file (ModuleFile.objectTypes text) own.name own.version ∧
          own.moduleName = (ModuleFile.moduleName text).getD "" := by
  intro leads
  rw [inModule, findEntry_eq present, findEntry_eq present]
  cases internal : (ModuleFile.internalTypes text).find? fun entry => leads entry.path with
  | some entry =>
      have here : leads entry.path := by simpa using List.find?_some internal
      exact Or.inl ⟨⟨entry, List.mem_of_find?_eq_some internal, here⟩, rfl⟩
  | none =>
      refine Or.inr ⟨by simpa using internal, ?_⟩
      cases object : (ModuleFile.objectTypes text).find? fun entry => leads entry.path with
      | some entry =>
          obtain ⟨here, earlier, later, order, first⟩ := List.find?_eq_some_iff_append.mp object
          refine ⟨_, rfl, ?_, rfl⟩
          exact .listed order (by simpa using here) (by simpa using first)
      | none =>
          refine ⟨_, rfl, ?_, rfl⟩
          exact .unlisted (by simpa using object)

variable {description text : String}

theorem ofFile_cases (present : disk.lookup file = .ok node)
    (described : Described disk file description text) (namespaces : List String) :
    let leads := LeadsTo disk (Path.dirname description) file
    (∃ entry ∈ ModuleFile.internalTypes text, leads entry.path) ∧
        ofFile disk namespaces file = .ok none ∨
      (∀ entry ∈ ModuleFile.internalTypes text, ¬leads entry.path) ∧
        ∃ own : Identity, ofFile disk namespaces file = .ok (some (own.qualify namespaces)) ∧
          TypeIs leads file (ModuleFile.objectTypes text) own.name own.version ∧
          own.moduleName = (ModuleFile.moduleName text).getD "" := by
  intro leads
  obtain ⟨bytes, read, decoded⟩ := described.content
  rcases inModule_cases present description text with
    ⟨isInternal, found⟩ | ⟨notInternal, own, found, isType, named⟩
  · refine Or.inl ⟨isInternal, ?_⟩
    simp only [ofFile, described.nearest, read, decoded, found, Option.map_none]
  · refine Or.inr ⟨notInternal, own, ?_, isType, named⟩
    simp only [ofFile, described.nearest, read, decoded, found, Option.map_some]

/-- A file has no identity exactly if an internal entry of its module leads to it, wherever that
entry stands. Otherwise it has the name and the version of the first entry that leads to it, or the
name of the file; and the class that is written for it has this name, in the namespaces that were
given and those of the module. -/
theorem ofFile_class (disk : Disk) (namespaces : List String) (options : Options)
    {file description text : String} {node : Node} {internals : List ModuleFile.InternalType}
    {objects : List ModuleFile.ObjectType} (present : disk.lookup file = .ok node)
    (described : Described disk file description text)
    (findsInternals : ModuleFile.FindsAll ModuleFile.InternalType.Spells none text.toList internals)
    (findsObjects : ModuleFile.FindsAll ModuleFile.ObjectType.Spells none text.toList objects) :
    let leads := LeadsTo disk (Path.dirname description) file
    (ofFile disk namespaces file = .ok none ↔ ∃ entry ∈ internals, leads entry.path) ∧
      ((∀ entry ∈ internals, ¬leads entry.path) →
        ∃ identity name, ofFile disk namespaces file = .ok (some identity) ∧
          TypeIs leads file objects name identity.version ∧
          ModuleFile.ModuleIs text.toList identity.moduleName ∧
          let info := (Filter.emptyDocument options identity).info
          simpleName info.name = name ∧
            nameSpaces info.name =
              namespaces.flatMap nameParts ++ moduleParts identity.moduleName) := by
  obtain rfl := (ModuleFile.internalTypes_iff text internals).mp findsInternals
  obtain rfl := (ModuleFile.objectTypes_iff text objects).mp findsObjects
  intro leads
  rcases ofFile_cases present described namespaces with
    ⟨isInternal, none⟩ | ⟨notInternal, own, found, isType, named⟩
  · refine ⟨iff_of_true none isInternal, fun notInternal => ?_⟩
    obtain ⟨entry, member, here⟩ := isInternal
    exact absurd here (notInternal entry member)
  · constructor
    · rw [found]
      refine iff_of_false (fun same => nomatch same) ?_
      rintro ⟨entry, member, here⟩
      exact notInternal entry member here
    · intro _
      have parts := nameParts_qualify own isType.dotless namespaces
      refine ⟨own.qualify namespaces, own.name, found, isType, ?_, ?_, ?_⟩
      · change ModuleFile.ModuleIs text.toList own.moduleName
        rw [named]
        exact ModuleFile.moduleIs_moduleName text
      · change simpleName (own.qualify namespaces).name = own.name
        rw [simpleName, parts]
        simp
      · change nameSpaces (own.qualify namespaces).name = _
        rw [nameSpaces, parts, List.dropLast_concat]
        rfl

/-- A type with an entry for each of two versions, beside an internal one. -/
theorem ofFile_class_button :
    let text := "module My.Parts\nButton 1.0 Button.qml\nButton 2.0 Button.qml\n" ++
      "internal Helper Helper.qml\n"
    let tree : Tree :=
      ⟨[(["Button.qml"], []), (["Helper.qml"], []), (["qmldir"], text.toUTF8.toList)], []⟩
    let internals : List ModuleFile.InternalType := [⟨"Helper", "Helper.qml"⟩]
    let objects : List ModuleFile.ObjectType :=
      [⟨"Button", "1.0", "Button.qml"⟩, ⟨"Button", "2.0", "Button.qml"⟩]
    let leads := LeadsTo tree.disk (Path.dirname "qmldir") "Button.qml"
    Described tree.disk "Button.qml" "qmldir" text ∧
      ModuleFile.FindsAll ModuleFile.InternalType.Spells none text.toList internals ∧
      ModuleFile.FindsAll ModuleFile.ObjectType.Spells none text.toList objects ∧
      (∀ entry ∈ internals, ¬leads entry.path) ∧
      TypeIs leads "Button.qml" objects "Button" (some "1.0") ∧
      ∃ identity, ofFile tree.disk ["Ui.Kit"] "Button.qml" = .ok (some identity) ∧
        simpleName identity.name = "Button" ∧
        nameSpaces identity.name = ["Ui", "Kit", "My", "Parts"] := by
  intro text tree internals objects leads
  obtain ⟨_, _, present⟩ : ∃ key bytes, tree.disk.lookup "Button.qml" = .ok (.file key bytes) :=
    lookup_of_isFile (by decide +kernel)
  have described : Described tree.disk "Button.qml" "qmldir" text :=
    ⟨by decide +kernel, text.toUTF8.toList, by decide +kernel, by decide +kernel⟩
  have findsInternals := (ModuleFile.internalTypes_iff text internals).mpr (by decide +kernel)
  have findsObjects := (ModuleFile.objectTypes_iff text objects).mpr (by decide +kernel)
  have notInternal : ∀ entry ∈ internals, ¬leads entry.path := by decide +kernel
  obtain ⟨identity, name, found, isType, -, simple, spaces⟩ :=
    (ofFile_class tree.disk ["Ui.Kit"] {} present described findsInternals findsObjects).2
      notInternal
  obtain rfl : identity = ⟨"Ui.Kit.My.Parts.Button", some "1.0", "My.Parts"⟩ :=
    Option.some.inj (Except.ok.inj (found.symm.trans (by decide +kernel)))
  have isName : simpleName "Ui.Kit.My.Parts.Button" = "Button" := by decide +kernel
  rw [← simple, Filter.emptyDocument, isName] at isType
  exact ⟨described, findsInternals, findsObjects, notInternal, isType, _, found, isName,
    spaces.trans (by decide +kernel)⟩

/-- The name of the module is that of the first line that names it exactly if this is the first line
of the description, or if the description starts with the same name all the same, on a later line
than the word `module`. Whatever the name is, the class is known by the names of the namespaces, of
the module and of the type. -/
theorem ofFile_module (disk : Disk) (namespaces : List String) {file description text : String}
    {node : Node} {place : Nat} {name : String} (present : disk.lookup file = .ok node)
    (described : Described disk file description text)
    (notInternal : ofFile disk namespaces file ≠ .ok none)
    (first : ModuleFile.FirstModuleLine text.toList place name) :
    ∃ identity type, ofFile disk namespaces file = .ok (some identity) ∧
      TypeIs (LeadsTo disk (Path.dirname description) file) file (ModuleFile.objectTypes text)
        type identity.version ∧
      nameParts identity.name =
        namespaces.flatMap nameParts ++ moduleParts identity.moduleName ++ [type] ∧
      ModuleFile.ModuleIs text.toList identity.moduleName ∧
      (identity.moduleName = name ↔ place = 0 ∨ ModuleFile.OpensAcross text.toList name) := by
  rcases ofFile_cases present described namespaces with
    ⟨-, none⟩ | ⟨-, own, found, isType, named⟩
  · exact absurd none notInternal
  · have given : name ≠ "" := by
      obtain ⟨line, -, front, trail, -, ⟨gap, -, -, nameRun⟩, -⟩ := first.here
      rintro rfl
      exact nameRun.1 rfl
    refine ⟨own.qualify namespaces, own.name, found, isType,
      nameParts_qualify own isType.dotless namespaces, ?_, ?_⟩
    · change ModuleFile.ModuleIs text.toList own.moduleName
      rw [named]
      exact ModuleFile.moduleIs_moduleName text
    · change own.moduleName = name ↔ _
      rw [named, ModuleFile.moduleName_getD_eq_iff text given, first.opens_iff]

theorem isModuleLine_parts {trail : List Char} (blank : trail.all Text.isBlank = true) :
    ModuleFile.IsModuleLine ("module My.Parts".toList ++ trail) "My.Parts" :=
  ⟨"module My.Parts".toList, trail, rfl, ⟨[' '], by decide, by decide, by decide⟩,
    List.all_eq_true.mp blank⟩

/-- A description that starts with the name of its module. -/
theorem ofFile_module_first :
    let text := "module My.Parts \nButton 1.0 Button.qml\n"
    let tree : Tree := ⟨[(["Button.qml"], []), (["qmldir"], text.toUTF8.toList)], []⟩
    Described tree.disk "Button.qml" "qmldir" text ∧
      ofFile tree.disk ["Ui"] "Button.qml" ≠ .ok none ∧
      ModuleFile.FirstModuleLine text.toList 0 "My.Parts" ∧
      ∃ identity type, ofFile tree.disk ["Ui"] "Button.qml" = .ok (some identity) ∧
        identity.moduleName = "My.Parts" ∧
        nameParts identity.name = ["Ui", "My", "Parts", type] := by
  intro text tree
  obtain ⟨_, _, present⟩ : ∃ key bytes, tree.disk.lookup "Button.qml" = .ok (.file key bytes) :=
    lookup_of_isFile (by decide +kernel)
  have described : Described tree.disk "Button.qml" "qmldir" text :=
    ⟨by decide +kernel, text.toUTF8.toList, by decide +kernel, by decide +kernel⟩
  have notInternal : ofFile tree.disk ["Ui"] "Button.qml" ≠ .ok none := by decide +kernel
  have first : ModuleFile.FirstModuleLine text.toList 0 "My.Parts" :=
    ⟨⟨"module My.Parts".toList ++ [' '], by decide, isModuleLine_parts (by decide)⟩,
      fun _ before => absurd before (Nat.not_lt_zero _)⟩
  obtain ⟨identity, type, found, -, parts, -, named⟩ :=
    ofFile_module tree.disk ["Ui"] present described notInternal first
  have isNamed : identity.moduleName = "My.Parts" := named.mpr (Or.inl rfl)
  have front : ["Ui"].flatMap nameParts ++ moduleParts "My.Parts" = ["Ui", "My", "Parts"] := by
    decide +kernel
  rw [isNamed, front] at parts
  exact ⟨described, notInternal, first, identity, type, found, isNamed, parts⟩

/-- Behind a comment the name of the module is not found. -/
theorem ofFile_module_commented :
    let text := "# The parts of the window\nmodule My.Parts\n"
    let tree : Tree :=
      ⟨[(["A.qml"], "Item \x7b\n\x7d\n".toUTF8.toList), (["qmldir"], text.toUTF8.toList)], []⟩
    ModuleFile.FirstModuleLine text.toList 1 "My.Parts" ∧
      ofFile tree.disk ["Ui"] "A.qml" = .ok (some ⟨"Ui.A", none, ""⟩) := by
  refine ⟨⟨⟨"module My.Parts".toList ++ [], by decide, isModuleLine_parts (by decide)⟩, ?_⟩,
    by decide +kernel⟩
  intro earlier before line there other isLine
  obtain rfl : earlier = 0 := by omega
  obtain rfl := Option.some.inj there
  obtain ⟨front, trail, same, ⟨gap, rfl, -⟩, -⟩ := isLine
  cases same

end Identity

end QmlDoc

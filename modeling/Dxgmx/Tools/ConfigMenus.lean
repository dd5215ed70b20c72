import Dxgmx.Kstdlib.String
import Dxgmx.Library.TextLines
import Mathlib.Data.List.Sort

open Library

namespace Dxgmx

def ascii (text : String) : List Byte := text.toList.map fun c => BitVec.ofNat 8 c.toNat

/-- The bytes of a literal, without decoding it. -/
theorem ascii_ofList (chars : List Char) :
    ascii (String.ofList chars) = chars.map fun c => BitVec.ofNat 8 c.toNat := by
  rw [ascii, String.toList_ofList]

def newline : Byte := 0x0a

def isspace (c : Byte) : Bool := c = 0x20 ∨ 0x09 ≤ c ∧ c ≤ 0x0d

inductive ConfigOptionType
  | bool
  | input
  deriving DecidableEq

structure ConfigInteractable where
  name : List Byte
  set : Bool
  value : List Byte
  inputType : ConfigOptionType
  modules : List (List Byte)
  deriving DecidableEq

/-- `options_map` in the order it is gone through. Its keys are the names. -/
structure ConfigTree where
  optionsMap : List ConfigInteractable
  keys : (optionsMap.map ConfigInteractable.name).Nodup

/-- The line of an element that is set. -/
def ConfigInteractable.definition (elem : ConfigInteractable) : List Byte :=
  if elem.set = false then []
  else if elem.inputType = .input then elem.name ++ ascii " = " ++ elem.value ++ [newline]
  else elem.name ++ ascii " = y" ++ [newline]

def moduleInclude (mod : List Byte) : List Byte :=
  ascii "include " ++ mod ++ ascii "/module.mk" ++ [newline]

def ConfigInteractable.includes (elem : ConfigInteractable) : List Byte :=
  if elem.set = false then [] else elem.modules.flatMap moduleInclude

/-- The text that is in the file when the call answers 0. -/
def ConfigTree.saveToGnumakeFile (tree : ConfigTree) : List Byte :=
  ascii "# This file was auto-generated using the dxgmx configuration engine." ++ [newline] ++
    (ascii "# Manually edit at your own discretion." ++ [newline]) ++ [newline] ++
    tree.optionsMap.flatMap ConfigInteractable.definition ++ [newline] ++
    tree.optionsMap.flatMap ConfigInteractable.includes

/-- What `load_options_from_conf_file` does with a line. -/
inductive ConfLine
  | skip
  | bad
  | option (key value : List Byte)
  deriving DecidableEq

def parseConfLine (line : List Byte) : ConfLine :=
  let line := line.filter fun c => !isspace c
  if line = [] then .skip
  else if line.head? = some 0x23 then .skip
  else if ascii "include" <+: line then .skip
  else if line.all fun c => c ≠ 0x3d then .bad
  else
    let key := line.takeWhile (· ≠ 0x3d)
    let value := (line.dropWhile (· ≠ 0x3d)).drop 1
    if key = [] ∨ value = [] then .bad else .option key value

namespace ConfigTree

def setOption (key value : List Byte) (elem : ConfigInteractable) : ConfigInteractable :=
  if elem.name = key then { elem with set := true, value := value } else elem

theorem setOption_name (key value : List Byte) (elem : ConfigInteractable) :
    (setOption key value elem).name = elem.name := by
  unfold setOption
  split <;> rfl

def assign (key value : List Byte) (tree : ConfigTree) : ConfigTree where
  optionsMap := tree.optionsMap.map (setOption key value)
  keys := by
    rw [List.map_map, show ConfigInteractable.name ∘ setOption key value = ConfigInteractable.name from
      funext (setOption_name key value)]
    exact tree.keys

/-- The loop of `load_options_from_conf_file`. -/
def loadLines : List (List Byte) → ConfigTree → Int × ConfigTree
  | [], tree => (0, tree)
  | line :: rest, tree =>
    match parseConfLine line with
    | .skip => loadLines rest tree
    | .bad => (-1, tree)
    | .option key value =>
      if key ∈ tree.optionsMap.map ConfigInteractable.name then
        loadLines rest (tree.assign key value)
      else (-1, tree)

def loadOptionsFromConfFile (file : List Byte) (tree : ConfigTree) : Int × ConfigTree :=
  loadLines (getLines newline file) tree

def unset (elem : ConfigInteractable) : ConfigInteractable :=
  { elem with set := false, value := [] }

/-- The tree as it is built, with nothing set. -/
def fresh (tree : ConfigTree) : ConfigTree where
  optionsMap := tree.optionsMap.map unset
  keys := by
    rw [List.map_map]
    exact tree.keys

/-- The flags, and the values of the inputs that are set. -/
def Restores (tree loaded : ConfigTree) : Prop :=
  ∀ elem ∈ tree.optionsMap, ∃ other ∈ loaded.optionsMap, other.name = elem.name ∧
    other.set = elem.set ∧ (elem.set = true → elem.inputType = .input → other.value = elem.value)

end ConfigTree

abbrev Text := List Byte

/-- What the parser makes of a file. The value of a number is not looked at. -/
inductive Json
  | null
  | bool (value : Bool)
  | number
  | string (text : Text)
  | array (elems : List Json)
  | object (members : List (Text × Json))

inductive ConfigInteractableType
  | menu
  | option
  deriving DecidableEq

/-- An interactable as it is parsed. `define` changes none of this. -/
structure ConfigElement where
  name : Text
  inputType : ConfigOptionType
  implies : List Text
  modules : List Text
  deriving DecidableEq

/-- The interactables of a menu, one after the other. -/
inductive Interactables
  | nil
  | option (elem : ConfigElement) (rest : Interactables)
  | menu (elem : ConfigElement) (inner rest : Interactables)

structure ConfigMenu where
  elem : ConfigElement
  interactables : Interactables

namespace Json

/-- `operator[]`. A member that is not there is null, and only an object or null has members. -/
def members? : Json → Exec (Text → Json)
  | .null => .ok fun _ => .null
  | .object members => .ok fun key => (members.lookup key).getD .null
  | _ => .error .panic

def isTextOrNull : Json → Bool
  | .null => true
  | .string _ => true
  | _ => false

/-- The strings of an array, in `implies` and in `modules`. -/
def strings : Json → Option (List Text)
  | .null => some []
  | .array elems => elems.mapM fun elem =>
    match elem with
    | .string text => some text
    | _ => none
  | _ => none

end Json

/-- `none` is what the source answers -1 for. -/
def confEngineParseCommon (type : ConfigInteractableType) (option : Text → Json) :
    Option ConfigElement := do
  let name ←
    match option (ascii "name") with
    | .string name => some name
    | _ => if type = .option then none else some []
  match option (ascii "title") with
  | .string _ => some ()
  | _ => none
  guard (option (ascii "description")).isTextOrNull
  match option (ascii "visible") with
  | .bool _ => some ()
  | visible => guard visible.isTextOrNull
  let inputType ←
    match option (ascii "type") with
    | .string type =>
      if type = ascii "input" then some .input
      else if type = ascii "bool" then some .bool
      else none
    | .null => some .bool
    | _ => none
  let implies ← (option (ascii "implies")).strings
  let modules ← (option (ascii "modules")).strings
  some ⟨name, inputType, implies, modules⟩

def confEngineParseOption (option : Json) : Exec (Option ConfigElement) := do
  let option ← option.members?
  pure (confEngineParseCommon .option option)

/-- A loop over the elements of an array. The first one that is bad ends it. -/
def parseEach {α : Type} (parse : Json → Exec (Option α)) : List Json → Exec (Option (List α))
  | [] => .ok (some [])
  | json :: rest => do
    match ← parse json with
    | none => pure none
    | some a =>
      let rest ← parseEach parse rest
      pure (rest.map (a :: ·))

/-- A member that is an array, or is not there. -/
def parseArray {α : Type} (parse : Json → Exec (Option α)) : Json → Exec (Option (List α))
  | .null => .ok (some [])
  | .array elems => parseEach parse elems
  | _ => .ok none

def Interactables.ofMenus : List ConfigMenu → Interactables
  | [] => .nil
  | first :: menus => .menu first.elem first.interactables (ofMenus menus)

/-- First the options of a menu, then its menus. -/
def Interactables.ofLists (menus : List ConfigMenu) : List ConfigElement → Interactables
  | [] => .ofMenus menus
  | elem :: options => .option elem (ofLists menus options)

/-- `files` says what a file holds that can be opened and parsed. -/
def confEngineParseMenu (files : Text → Option Json) : (fuel : Nat) → Json →
    Exec (Option ConfigMenu)
  | 0, _ => .error .fuel
  | fuel + 1, menu => do
    let menu ← menu.members?
    match confEngineParseCommon .menu menu with
    | none => pure none
    | some elem =>
      match ← parseArray confEngineParseOption (menu (ascii "options")) with
      | none => pure none
      | some options =>
        let menus ← parseArray (fun json =>
          match json with
          | .string path =>
            match files path with
            | none => .ok none
            | some root => confEngineParseMenu files fuel root
          | .object members => confEngineParseMenu files fuel (.object members)
          | _ => .ok none) (menu (ascii "menus"))
        pure (menus.map fun menus => ⟨elem, .ofLists menus options⟩)

/-- The elements as they are gone through, each with the type its constructor gives it. -/
def Interactables.elements : Interactables → List (ConfigInteractableType × ConfigElement)
  | .nil => []
  | .option elem rest => (.option, elem) :: rest.elements
  | .menu elem inner rest => (.menu, elem) :: (inner.elements ++ rest.elements)

def isNotSpace (c : Byte) : Bool := !isspace c

/-- A rule as it is kept to be checked: only a rule with a value is stripped of its blanks. -/
def checkedName (rule : Text) : Text :=
  if rule.contains 0x3d then (rule.takeWhile (· ≠ 0x3d)).filter isNotSpace else rule

/-- `insert` of an `unordered_map`: a key that is there keeps what it has. -/
def insertOption (name : Text) (inter : Nat) (options : List (Text × Nat)) : List (Text × Nat) :=
  if (options.lookup name).isSome then options else options ++ [(name, inter)]

def ConfigElement.needsSelecting (elem : ConfigElement) : Bool := 0 < elem.name.length

/-- `inter` is the place of the first of the interactables. -/
def confEngineBuildOptionMapAndImpliesVector : Interactables → (inter : Nat) →
    (implies : List Text) → (options : List (Text × Nat)) → List Text × List (Text × Nat)
  | .nil, _, implies, options => ((implies.insertionSort (· ≤ ·)).dedup, options)
  | .option elem rest, inter, implies, options =>
    confEngineBuildOptionMapAndImpliesVector rest (inter + 1)
      (implies ++ elem.implies.map checkedName) (insertOption elem.name inter options)
  | .menu elem inner rest, inter, implies, options =>
    let options := if elem.needsSelecting then insertOption elem.name inter options else options
    let (implies, options) :=
      confEngineBuildOptionMapAndImpliesVector inner (inter + 1) implies options
    confEngineBuildOptionMapAndImpliesVector rest (inter + 1 + inner.elements.length) implies
      options

/-- A tree that is built. The root is the first element, and a pointer to an element is its place. -/
structure BuiltTree where
  elements : List (ConfigInteractableType × ConfigElement)
  optionsMap : List (Text × Nat)
  deriving DecidableEq

def confEngineBuild (root : ConfigMenu) : Except Int BuiltTree :=
  let (implies, options) := confEngineBuildOptionMapAndImpliesVector root.interactables 1 [] []
  if implies.all fun impl => (options.lookup impl).isSome then
    .ok ⟨(.menu, root.elem) :: root.interactables.elements, options⟩
  else .error (-1)

def buildFromPath (files : Text → Option Json) (fuel : Nat) (path : Text) :
    Exec (Except Int BuiltTree) :=
  match files path with
  | none => .ok (.error (-1))
  | some json => do
    match ← confEngineParseMenu files fuel json with
    | none => pure (.error (-1))
    | some root => pure (confEngineBuild root)

end Dxgmx

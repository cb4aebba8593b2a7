import Razorback.Config.Defs

/-! The reader of `config_file.c` for any table of keys, with its arrays and lists. The file is what its paths lead to, and there
is memory. `wild` is the text variable of `parseList` at its start. -/

namespace Razorback.Config.Tables
open List Text Function Option

inductive Plain
  | int | string | parsedString (parseString : CString → Option Int32) | uuid | bool

inductive Cell
  | int (value : Int32)
  | string (value : Option CString)
  | uuid (value : BitVec 128)
  | bool (value : Bool)

/-- A row of a list's layout. Other types are refused. -/
structure Field where
  key : String
  type : Option Plain

/-- What a name leads to in an element of a list, nothing if that is no group. -/
abbrev Item := String → Option Setting

/-- A setting of the file, with its elements where it is a list. -/
structure Node where
  setting : Setting
  items : List Item

inductive Stored
  | cell (cell : Cell)
  | data (cells : List Cell)

/-- The variables a row of the table writes to. -/
inductive Target (δ : Type)
  | plain (type : Plain) (dest : δ)
  | array (type : Option Plain) (data count : δ)
  | list (layout : List Field) (data count : δ)

structure Row (δ : Type) where
  key : String
  target : Target δ

inductive File
  | missing
  /-- `config_read_file` fails. -/
  | malformed
  | settings (lookup : String → Option Node)

variable {δ : Type} (uuidParse : CString → Option (BitVec 128))

/-! ### Values -/

def parseBool (same : CString → String → Bool) (value : CString) : Option Bool :=
  if same value "true" then some true else if same value "false" then some false else none

def parseText (value : CString) : Plain → Option Cell
  | .int => none
  | .string => some (.string value)
  | .parsedString parseString => (parseString value).map .int
  | .uuid => (uuidParse value).map .uuid
  | .bool => (parseBool CString.startsWith value).map .bool

def parseEnvText (value : CString) : Plain → Option Cell
  | .int => (parseEnvInt value).map .int
  | .bool => (parseBool CString.sameLetters value).map .bool
  | type => parseText uuidParse value type

/-- What a setting offers to a variable or a field of the type: a number or a text. -/
def reading (setting : Option Setting) : Plain → Option (Int32 ⊕ CString)
  | .int => (setting.bind lookupInt).map .inl
  | _ => (setting.bind lookupString).map .inr

def parseReading (type : Plain) : Int32 ⊕ CString → Option Cell
  | .inl value => some (.int value)
  | .inr text => parseText uuidParse text type

def parsePlain (setting : Setting) (type : Plain) : Option Cell := (reading (some setting) type).bind (parseReading uuidParse type)

/-- A parser crashes without a text, which counts as a failure here. -/
def parseElement (element : Scalar) : Plain → Option Cell
  | .int => some (.int (intElem element))
  | .string => some (.string (lookupString (.scalar element)))
  | type => parsePlain uuidParse (.scalar element) type

def parseArray (elements : List Scalar) (type : Option Plain) : Option (List Cell) :=
  type.bind fun type => elements.mapM (parseElement uuidParse · type)

/-! ### Lists -/

/-- A field of an element, and the text variable after it. The memory of an integer was cleared. -/
def parseField (setting : Option Setting) (tmp : CString) : Option Plain → Option (Cell × CString)
  | none => none
  | some .int => some (.int ((setting.bind lookupInt).getD 0), tmp)
  | some type =>
    (parseText uuidParse ((setting.bind lookupString).getD tmp) type).map (·, (setting.bind lookupString).getD tmp)

def parseItem (item : Item) : List Field → CString → Option (List Cell × CString)
  | [], tmp => some ([], tmp)
  | field :: fields, tmp =>
    (parseField uuidParse (item field.key) tmp field.type).bind fun now =>
      (parseItem item fields now.2).map fun rest => (now.1 :: rest.1, rest.2)

/-- The elements follow each other in memory. -/
def parseItems (layout : List Field) : List Item → CString → Option (List Cell × CString)
  | [], tmp => some ([], tmp)
  | item :: items, tmp =>
    (parseItem uuidParse item layout tmp).bind fun now =>
      (parseItems layout items now.2).map fun rest => (now.1 ++ rest.1, rest.2)

def parseList (wild : CString) (layout : List Field) (items : List Item) : Option (List Cell) :=
  (parseItems uuidParse layout items wild).map Prod.fst

variable {uuidParse} {wild tmp tmp' : CString} {layout : List Field} {item : Item} {items : List Item} {cells : List Cell}

theorem parseField_spec (h : parseField uuidParse setting tmp (some type) = some (cell, tmp')) :
    (∀ read, reading setting type = some read → parseReading uuidParse type read = some cell) ∧
      (type = .int → reading setting type = none → cell = .int 0) := by
  cases type with
  | int =>
    cases hread : setting.bind lookupInt with
    | none => simp [reading, hread, ← (by simpa [parseField] using h : _ ∧ _).1]
    | some value => simp [reading, hread, parseReading, ← (by simpa [parseField] using h : _ ∧ _).1]
  | string | uuid | bool | parsedString =>
    cases hread : setting.bind lookupString with
    | none => simp [reading, hread]
    | some text =>
      simp only [parseField, hread, getD_some, map_eq_some_iff] at h
      obtain ⟨_, hcell, rfl, -⟩ := h
      simp [reading, hread, parseReading, hcell]

theorem parseItem_spec (h : parseItem uuidParse item fields tmp = some (cells, tmp')) :
    Forall₂ (fun field cell => ∃ tmp tmp', parseField uuidParse (item field.key) tmp field.type = some (cell, tmp')) fields cells := by
  induction fields generalizing tmp cells with
  | nil =>
    cases h
    exact .nil
  | cons field fields ih =>
    obtain ⟨⟨cell, now⟩, hcell, h⟩ := bind_eq_some_iff.mp h
    obtain ⟨rest, hrest, h⟩ := map_eq_some_iff.mp h
    cases h
    exact .cons ⟨_, _, hcell⟩ (ih hrest)

theorem parseItems_spec (h : parseItems uuidParse layout items tmp = some (cells, tmp')) (hitem : items[i]? = some item) :
    ∃ row tmp tmp', parseItem uuidParse item layout tmp = some (row, tmp') ∧
      ∀ k < layout.length, cells[i * layout.length + k]? = row[k]? := by
  induction items generalizing tmp cells i with
  | nil => simp at hitem
  | cons first items ih =>
    obtain ⟨⟨row, now⟩, hrow, h⟩ := bind_eq_some_iff.mp h
    obtain ⟨rest, hrest, h⟩ := map_eq_some_iff.mp h
    cases h
    have hlength : row.length = layout.length := (parseItem_spec hrow).length_eq.symm
    cases i with
    | zero =>
      cases hitem
      exact ⟨row, _, _, hrow, fun k hk => by rw [zero_mul, zero_add, getElem?_append_left (hlength.symm ▸ hk)]⟩
    | succ i =>
      obtain ⟨row', tmp, tmp', hrow', hcells⟩ := ih hrest hitem
      refine ⟨row', tmp, tmp', hrow', fun k hk => ?_⟩
      rw [getElem?_append_right (by rw [hlength, Nat.succ_mul]; omega), ← hcells k hk, hlength, Nat.succ_mul]
      congr 1
      omega

theorem parseList_spec (h : parseList uuidParse wild layout items = some cells) (hitem : items[i]? = some item) (hfield : layout[k]? = some ⟨key, some type⟩) :
    ∃ cell, cells[i * layout.length + k]? = some cell ∧
      (∀ read, reading (item key) type = some read → parseReading uuidParse type read = some cell) ∧
      (type = .int → reading (item key) type = none → cell = .int 0) := by
  obtain ⟨⟨cells', tmp⟩, hitems, rfl⟩ := map_eq_some_iff.mp h
  obtain ⟨row, tmp, tmp', hrow, hcells⟩ := parseItems_spec hitems hitem
  obtain ⟨hk, hfield⟩ := List.getElem?_eq_some_iff.mp hfield
  have hrow := parseItem_spec hrow
  have hlength : k < row.length := hrow.length_eq ▸ hk
  obtain ⟨tmp, tmp', hcell⟩ := hrow.get hk hlength
  rw [get_eq_getElem, hfield] at hcell
  exact ⟨row[k], (hcells k hk).trans (getElem?_eq_getElem hlength), parseField_spec hcell⟩

def named (value : UInt8) : Item := fun key => if key = "Name" then some (.scalar (.string (cString [value]))) else none

def Target.dests : Target δ → List δ
  | .plain _ dest => [dest]
  | .array _ data count | .list _ data count => [data, count]

def number (n : ℕ) : Stored := .cell (.int (Int32.ofNat n))

/-- What an array or a list of a number of elements writes. -/
def sequence (data count : δ) (size : ℕ) (cells : Option (List Cell)) : Option (List (δ × Stored)) :=
  if size = 0 then some [(count, number 0)] else cells.map fun cells => [(count, number size), (data, .data cells)]

variable (uuidParse) (wild : String → CString)

def parseEnvValue (value : CString) : Target δ → Option (List (δ × Stored))
  | .plain type dest => (parseEnvText uuidParse value type).map fun cell => [(dest, .cell cell)]
  | _ => none

/-- The part of `parseBlock` for a key that was found in the file. -/
def parseSetting (key : String) (node : Node) : Target δ → Option (List (δ × Stored))
  | .plain type dest => (parsePlain uuidParse node.setting type).map fun cell => [(dest, .cell cell)]
  | .array type data count =>
    match node.setting with
    | .array elements => sequence data count elements.length (parseArray uuidParse elements type)
    | _ => none
  | .list layout data count =>
    if node.setting = .list then sequence data count node.items.length (parseList uuidParse (wild key) layout node.items)
    else none

def parseRow (env : Environment) (lookup : String → Option Node) (row : Row δ) : Option (List (δ × Stored)) :=
  match env (configKeyToEnvName row.key) with
  | some value => parseEnvValue uuidParse value row.target
  | none =>
    match lookup row.key with
    | none => some []
    | some node => parseSetting uuidParse wild row.key node row.target

variable [DecidableEq δ]

def write (store : δ → Stored) (writes : List (δ × Stored)) : δ → Stored :=
  writes.foldl (fun store w => Function.update store w.1 w.2) store

def parseBlock (env : Environment) (lookup : String → Option Node) : List (Row δ) → (δ → Stored) → Option (δ → Stored)
  | [], store => some store
  | row :: rows, store => (parseRow uuidParse wild env lookup row).bind fun writes => parseBlock env lookup rows (write store writes)

def hasEnvOverride (env : Environment) (rows : List (Row δ)) : Bool := rows.any fun row => (env (configKeyToEnvName row.key)).isSome

def File.lookup : File → String → Option Node
  | .settings lookup, key => lookup key
  | _, _ => none

def readMyConfig (env : Environment) (file : File) (rows : List (Row δ)) (store : δ → Stored) : Option (δ → Stored) :=
  match file with
  | .missing => if hasEnvOverride env rows then parseBlock uuidParse wild env file.lookup rows store else none
  | .malformed => none
  | .settings _ => parseBlock uuidParse wild env file.lookup rows store

def KeyText (key : String) : Prop := ∀ c ∈ key.toList, c.isAlphanum ∨ c = '.'

variable {uuidParse wild} {env : Environment} {lookup : String → Option Node} {rows : List (Row δ)} {row : Row δ}
  {store after : δ → Stored} {writes : List (δ × Stored)}

omit [DecidableEq δ] in
theorem parseRow_dests (h : parseRow uuidParse wild env lookup row = some writes) : ∀ w ∈ writes, w.1 ∈ row.target.dests := by
  have hseq : ∀ {data count : δ} {size cells}, sequence data count size cells = some writes → ∀ w ∈ writes, w.1 ∈ [data, count] := by
    intro data count size cells h
    unfold sequence at h
    split_ifs at h
    · cases h
      simp
    · obtain ⟨_, -, rfl⟩ := map_eq_some_iff.mp h
      simp
  have hplain : ∀ {cell : Option Cell} {dest : δ}, cell.map (fun cell => [(dest, Stored.cell cell)]) = some writes →
      ∀ w ∈ writes, w.1 ∈ [dest] := fun h => by
    obtain ⟨_, -, rfl⟩ := map_eq_some_iff.mp h
    simp
  obtain ⟨key, target⟩ := row
  unfold parseRow at h
  split at h
  · cases target with
    | plain => exact hplain h
    | array | list => cases h
  · split at h
    · cases h
      simp
    · cases target with
      | plain => exact hplain h
      | array =>
        simp only [parseSetting] at h
        split at h
        · exact hseq h
        · cases h
      | list =>
        simp only [parseSetting] at h
        split_ifs at h
        exact hseq h

theorem write_of_notMem (h : ∀ w ∈ writes, w.1 ≠ d) : write store writes d = store d := by
  induction writes generalizing store with
  | nil => rfl
  | cons w writes ih =>
    exact (ih fun w hw => h w (mem_cons_of_mem _ hw)).trans (Function.update_of_ne (h w mem_cons_self).symm _ _)

theorem write_congr (h : store d = store' d) : write store writes d = write store' writes d := by
  induction writes generalizing store store' with
  | nil => exact h
  | cons w writes ih =>
    refine ih ?_
    by_cases hd : d = w.1
    · subst hd
      simp
    · simp [Function.update_of_ne hd, h]

/-- Every row writes to its own destinations alone. -/
theorem parseBlock_spec (hdests : (rows.flatMap (·.target.dests)).Nodup)
    (h : parseBlock uuidParse wild env lookup rows store = some after) :
    (∀ row ∈ rows, ∃ writes, parseRow uuidParse wild env lookup row = some writes ∧
      ∀ d ∈ row.target.dests, after d = write store writes d) ∧
    ∀ d ∉ rows.flatMap (·.target.dests), after d = store d := by
  induction rows generalizing store with
  | nil =>
    cases h
    simp
  | cons row rows ih =>
    obtain ⟨writes, hwrites, h⟩ := bind_eq_some_iff.mp h
    rw [flatMap_cons, nodup_append'] at hdests
    obtain ⟨hrows, hother⟩ := ih hdests.2.1 h
    have hkeep : ∀ d ∉ row.target.dests, write store writes d = store d := fun d hd =>
      write_of_notMem fun w hw heq => hd (heq ▸ parseRow_dests hwrites w hw)
    refine ⟨forall_mem_cons.mpr ⟨⟨writes, hwrites, fun d hd => hother d (hdests.2.2 hd)⟩, fun other hmem => ?_⟩, fun d hd => ?_⟩
    · obtain ⟨writes', hwrites', hafter⟩ := hrows other hmem
      refine ⟨writes', hwrites', fun d hd => (hafter d hd).trans (write_congr (hkeep d fun hd' => ?_))⟩
      exact hdests.2.2 hd' (mem_flatMap_of_mem hmem hd)
    · rw [flatMap_cons, mem_append, not_or] at hd
      exact (hother d hd.2).trans (hkeep d hd.1)

theorem escape_injective {as bs : List Char} (has : '_' ∉ as) (hbs : '_' ∉ bs)
    (h : (as.flatMap fun c => if c = '.' then ['_', '_'] else [c]) = bs.flatMap fun c => if c = '.' then ['_', '_'] else [c]) :
    as = bs := by
  induction as generalizing bs with
  | nil => cases bs <;> [rfl; (simp only [flatMap_cons] at h; split_ifs at h <;> simp at h)]
  | cons a as ih =>
    rw [mem_cons, not_or] at has
    cases bs with
    | nil =>
      simp only [flatMap_cons] at h
      split_ifs at h <;> simp at h
    | cons b bs =>
      rw [mem_cons, not_or] at hbs
      simp only [flatMap_cons] at h
      split_ifs at h with ha hb hb
      · rw [ha, hb, ih has.2 hbs.2 (append_cancel_left h)]
      · exact absurd (cons.inj h).1 hbs.1
      · exact absurd (cons.inj h).1.symm has.1
      · rw [(cons.inj h).1, ih has.2 hbs.2 (cons.inj h).2]

theorem configKeyToEnvName_injective (ha : KeyText a) (hb : KeyText b)
    (h : configKeyToEnvName a = configKeyToEnvName b) : a = b := by
  have hword : ∀ {key}, KeyText key → '_' ∉ key.toList := fun hkey hmem => absurd (hkey _ hmem) (by decide)
  exact String.toList_injective (escape_injective (hword ha) (hword hb) (append_cancel_left (String.ofList_injective h)))

theorem readMyConfig_eq_some (h : readMyConfig uuidParse wild env file rows store = some after) :
    parseBlock uuidParse wild env file.lookup rows store = some after := by
  cases file with
  | missing =>
    simp only [readMyConfig] at h
    split_ifs at h
    exact h
  | malformed => cases h
  | settings lookup => exact h

/-- A variable of the environment goes before the file and the file before what was there, and the variable or the entry of another
key changes nothing. -/
theorem precedence (rows : List (Row δ)) (hkeys : ∀ row ∈ rows, KeyText row.key)
    (hdests : (rows.flatMap (·.target.dests)).Nodup) (env : Environment) (file : File) (store after : δ → Stored)
    (h : readMyConfig uuidParse wild env file rows store = some after) (row : Row δ) (hrow : row ∈ rows) :
    (∀ type dest, row.target = .plain type dest →
      (∀ value, env (configKeyToEnvName row.key) = some value →
        (parseEnvText uuidParse value type).map .cell = some (after dest)) ∧
      (env (configKeyToEnvName row.key) = none →
        (∀ node, file.lookup row.key = some node → (parsePlain uuidParse node.setting type).map .cell = some (after dest)) ∧
        (file.lookup row.key = none → after dest = store dest))) ∧
    ∀ other, KeyText other → other ≠ row.key → ∀ env' file' after',
      (∀ name ≠ configKeyToEnvName other, env' name = env name) → (∀ key ≠ other, file'.lookup key = file.lookup key) →
      readMyConfig uuidParse wild env' file' rows store = some after' → ∀ d ∈ row.target.dests, after' d = after d := by
  obtain ⟨writes, hwrites, hafter⟩ := (parseBlock_spec hdests (readMyConfig_eq_some h)).1 row hrow
  refine ⟨fun type dest htarget => ?_, fun other hother hne env' file' after' henv hfile h' d hd => ?_⟩
  · have hdest : after dest = write store writes dest := hafter dest (by simp [htarget, Target.dests])
    have hplain : ∀ {cell : Option Cell}, cell.map (fun cell => [(dest, Stored.cell cell)]) = some writes →
        cell.map .cell = some (after dest) := fun h => by
      obtain ⟨cell, hcell, rfl⟩ := map_eq_some_iff.mp h
      simp [hdest, write, hcell]
    unfold parseRow at hwrites
    refine ⟨fun value hvalue => ?_, fun hnone => ⟨fun node hnode => ?_, fun hfile => ?_⟩⟩
    · rw [hvalue, htarget] at hwrites
      exact hplain hwrites
    · rw [hnone, hnode, htarget] at hwrites
      exact hplain hwrites
    · rw [hnone, hfile] at hwrites
      cases hwrites
      exact hdest
  · obtain ⟨writes', hwrites', hafter'⟩ := (parseBlock_spec hdests (readMyConfig_eq_some h')).1 row hrow
    have hname : configKeyToEnvName row.key ≠ configKeyToEnvName other := fun heq =>
      hne (configKeyToEnvName_injective (hkeys row hrow) hother heq).symm
    have hsame : parseRow uuidParse wild env' file'.lookup row = parseRow uuidParse wild env file.lookup row := by
      rw [parseRow, parseRow, henv _ hname, hfile _ hne.symm]
    cases hwrites'.symm.trans (hsame.trans hwrites)
    rw [hafter' d hd, hafter d hd]

theorem precedence_host : ∃ after : Unit → Stored,
    readMyConfig (fun _ => none) (fun _ => cString []) (fun _ => some (cString [65])) .missing [⟨"Host", .plain .string ()⟩]
      (fun _ => .data []) = some after ∧ some (after ()) = some (.cell (.string (cString [65]))) := by
  have hread := fun after h => @precedence Unit (fun _ => none) (fun _ => cString []) _ [⟨"Host", .plain .string ()⟩] (by simp [KeyText])
    (by simp [Target.dests]) (fun _ => some (cString [65])) .missing (fun _ => .data []) after h _ mem_cons_self
  exact ⟨_, rfl, (((hread _ rfl).1 _ _ rfl).1 _ rfl).symm⟩

end Razorback.Config.Tables

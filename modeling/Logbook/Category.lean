import Logbook.Color
import Logbook.Json.Printer
import Logbook.Json.Reader

/-! Categories: what a message is about, next to how much it matters. A table gives each category a color and may
    name one for the messages that have none. Names are found up to blanks around them and the case of ASCII
    letters, an exact match first; the table lists them in the order of their characters. -/

namespace Logbook

/-- The settings of a category: the color of its lines, and whether messages without a category belong to it. -/
structure Category where
  color : Option Color
  isDefault : Bool
deriving DecidableEq, Repr

namespace Category

instance : Inhabited Category := ⟨⟨none, false⟩⟩

def colored (color : Color) : Category :=
  ⟨some color, false⟩

/-! ### JSON -/

/-- The settings as a JSON value; an absent color is left out. -/
def toJson (c : Category) : Json.Value :=
  .object ((c.color.map fun color => ("Color", Json.Value.text color.name)).toList ++
    [("IsDefault", .truth c.isDefault)])

end Category

def Color.read : Json.Reader Color :=
  Json.named fun name => (Color.ofName name).mapError Error.message

namespace Category

def read : Json.Reader Category :=
  Json.record false
    [⟨"Color", fun c s => (Json.optional Color.read s).map fun (v, s) => ({ c with color := v }, s)⟩,
     ⟨"IsDefault", fun c s => (Json.bool s).map fun (v, s) => ({ c with isDefault := v }, s)⟩]
    default

end Category

/-- Categories by name, in the order of the names. -/
structure CategoryTable where
  entries : List (String × Category)
  sorted : entries.Pairwise fun a b => a.1 < b.1
deriving DecidableEq

namespace CategoryTable

/-! ### Entries -/

def empty : CategoryTable :=
  ⟨[], .nil⟩

instance : EmptyCollection CategoryTable := ⟨empty⟩

instance : Inhabited CategoryTable := ⟨empty⟩

/-- The entries with one more in its place, or in place of the one that has its name. -/
def insertEntry (name : String) (category : Category) : List (String × Category) → List (String × Category)
  | [] => [(name, category)]
  | entry :: rest =>
    if name < entry.1 then (name, category) :: entry :: rest
    else if name = entry.1 then (name, category) :: rest
    else entry :: insertEntry name category rest

theorem mem_insertEntry {name : String} {category : Category} {entries : List (String × Category)}
    {entry : String × Category} (h : entry ∈ insertEntry name category entries) :
    entry = (name, category) ∨ entry ∈ entries := by
  induction entries with
  | nil => simpa [insertEntry] using h
  | cons first rest ih =>
    unfold insertEntry at h
    split at h
    · simpa using h
    · split at h
      · rcases List.mem_cons.mp h with h | h
        · exact .inl h
        · exact .inr (List.mem_cons_of_mem _ h)
      · rcases List.mem_cons.mp h with h | h
        · exact .inr (h ▸ List.mem_cons_self)
        · exact (ih h).imp id (List.mem_cons_of_mem _)

theorem sorted_insertEntry (name : String) (category : Category) {entries : List (String × Category)}
    (h : entries.Pairwise fun a b => a.1 < b.1) :
    (insertEntry name category entries).Pairwise fun a b => a.1 < b.1 := by
  induction entries with
  | nil => simp [insertEntry]
  | cons first rest ih =>
    obtain ⟨hfirst, hrest⟩ := List.pairwise_cons.mp h
    unfold insertEntry
    split
    · next hlt =>
      refine List.pairwise_cons.mpr ⟨fun entry he => ?_, h⟩
      rcases List.mem_cons.mp he with rfl | he
      · exact hlt
      · exact String.lt_trans hlt (hfirst _ he)
    · split
      · next heq => exact List.pairwise_cons.mpr ⟨fun entry he => heq ▸ hfirst _ he, hrest⟩
      · next hnlt hne =>
        refine List.pairwise_cons.mpr ⟨fun entry he => ?_, ih hrest⟩
        rcases mem_insertEntry he with rfl | he
        · rcases String.le_total name first.1 with hle | hle
          · exact absurd (String.le_antisymm hle (String.not_lt.mp hnlt)) hne
          · exact Classical.byContradiction fun hn =>
              hne (String.le_antisymm (String.not_lt.mp hn) hle)
        · exact hfirst _ he

/-- The table with this name and category, in place of what exactly this name had. -/
def insert (t : CategoryTable) (name : String) (category : Category) : CategoryTable :=
  ⟨insertEntry name category t.entries, sorted_insertEntry name category t.sorted⟩

/-- The table without exactly this name. -/
def erase (t : CategoryTable) (name : String) : CategoryTable :=
  ⟨t.entries.filter fun entry => entry.1 != name, t.sorted.filter _⟩

/-- The table with no category as the default. -/
def withoutDefault (t : CategoryTable) : CategoryTable :=
  ⟨t.entries.map fun entry => (entry.1, { entry.2 with isDefault := false }),
   t.sorted.map _ fun _ _ h => h⟩

/-- The category with exactly this name. -/
def find? (t : CategoryTable) (name : String) : Option Category :=
  t.entries.lookup name

def size (t : CategoryTable) : Nat :=
  t.entries.length

/-- There are no categories. -/
def isEmpty (t : CategoryTable) : Bool :=
  t.entries.isEmpty

/-! ### Finding categories -/

/-- The name in the table that `name` stands for: itself, without the blanks around it, or else the first that
    agrees with it up to letter case. -/
def key? (t : CategoryTable) (name : String) : Option String :=
  let name := Text.trimmed name
  let keys := t.entries.map (·.1)
  (keys.find? (· == name)).or (keys.find? fun key => Text.sameLetters key name)

/-- The category that `name` stands for. -/
def get? (t : CategoryTable) (name : String) : Option Category :=
  (t.key? name).bind t.find?

/-- The color of the category that `name` stands for. -/
def color? (t : CategoryTable) (name : String) : Option Color :=
  (t.get? name).bind (·.color)

/-- The name of the first category that is a default. -/
def default? (t : CategoryTable) : Option String :=
  (t.entries.find? fun entry => entry.2.isDefault).map (·.1)

/-! ### Valid tables -/

def blankName (name : String) : Error :=
  .invalidCategory name "category name must not be blank"

/-- The error of a default after the one named `previous`. -/
def secondDefault (name previous : String) : Error :=
  .invalidCategory name ("'" ++ previous ++ "' is already the default category")

/-- The first entry that is not allowed after a default named `previous`: one with a blank name, or a second
    default. -/
def firstError? : Option String → List (String × Category) → Option Error
  | _, [] => none
  | previous, (name, category) :: rest =>
    if Text.isBlankText name then some (blankName name)
    else if category.isDefault then
      match previous with
      | some previous => some (secondDefault name previous)
      | none => firstError? (some name) rest
    else firstError? previous rest

/-- No name is blank and at most one category is the default. -/
def validate (t : CategoryTable) : Except Error Unit :=
  match firstError? none t.entries with
  | some e => .error e
  | none => .ok ()

/-! ### Changing a table -/

/-- The table with category `name` set: it replaces the category that the name stands for, under the new
    spelling, and as a default it takes over from the others. -/
def set (t : CategoryTable) (name : String) (category : Category) : Except Error CategoryTable :=
  if Text.isBlankText name then .error (blankName name)
  else
    let t := if category.isDefault then t.withoutDefault else t
    let t := match t.key? name with
      | some key => t.erase key
      | none => t
    .ok (t.insert (Text.trimmed name) category)

/-- The table without the category that `name` stands for. -/
def remove (t : CategoryTable) (name : String) : CategoryTable :=
  match t.key? name with
  | some key => t.erase key
  | none => t

/-- The table of these entries, where a later one replaces an earlier one of the same name. -/
def ofList (entries : List (String × Category)) : CategoryTable :=
  entries.foldl (fun t entry => t.insert entry.1 entry.2) ∅

/-- The table of these entries, if it is valid. -/
def ofList? (entries : List (String × Category)) : Except Error CategoryTable :=
  (ofList entries).validate.map fun _ => ofList entries

/-! ### JSON -/

def toJson (t : CategoryTable) : Json.Value :=
  .object (t.entries.map fun entry => (entry.1, entry.2.toJson))

/-- The table that a JSON object describes; it need not be valid. -/
def read : Json.Reader CategoryTable :=
  Json.table .ok Category.read insert ∅

/-- The table that a JSON text describes; it need not be valid. -/
def ofJson (text : String) : Except Json.Fault CategoryTable :=
  Json.document read text

end CategoryTable
end Logbook

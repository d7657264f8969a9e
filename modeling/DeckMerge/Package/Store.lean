import DeckMerge.Zip.Reader
import DeckMerge.Zip.Writer

/-!
Packages: parts under names, in the order of their container. Parts are replaced in place, new ones come
last, and what has been written since opening is remembered.
-/

namespace DeckMerge

namespace Package

/-- Entries with one set: a name that is there keeps its place. -/
def put (es : List Zip.Entry) (e : Zip.Entry) : List Zip.Entry :=
  match es with
  | [] => [e]
  | e' :: es => if e'.name = e.name then e :: es else e' :: put es e

theorem map_name_put (es : List Zip.Entry) (e : Zip.Entry) : (put es e).map (·.name) =
    if e.name ∈ es.map (·.name) then es.map (·.name) else es.map (·.name) ++ [e.name] := by
  induction es with
  | nil => rfl
  | cons e' es ih =>
    by_cases h : e'.name = e.name
    · simp [put, h]
    · simp only [put, h, if_false, List.map_cons, ih, List.mem_cons, Ne.symm h, false_or]
      split <;> rfl

theorem nodup_put {es : List Zip.Entry} (h : (es.map (·.name)).Nodup) (e : Zip.Entry) :
    ((put es e).map (·.name)).Nodup := by
  rw [map_name_put]
  split
  case isTrue => exact h
  case isFalse hmem =>
    rw [List.nodup_append]
    refine ⟨h, by simp, ?_⟩
    intro name hname name' hname' heq
    obtain rfl := List.mem_singleton.1 hname'
    exact hmem (heq ▸ hname)

theorem nodup_foldl_put (es : List Zip.Entry) {before : List Zip.Entry}
    (h : (before.map (·.name)).Nodup) : ((es.foldl put before).map (·.name)).Nodup := by
  induction es generalizing before with
  | nil => exact h
  | cons e es ih => exact ih (nodup_put h e)

end Package

structure Package where
  /-- Where the package comes from, for messages. -/
  source : Text
  entries : List Zip.Entry
  /-- The names that have been written, in the order of their first writing. -/
  modified : List Text
  distinct : (entries.map (·.name)).Nodup

namespace Package

/-- Where packages come from that are not read from a file. -/
def memory : Text := "<memory>"

/-- What is caught while a container is read; other faults are let through. -/
def isLoadFault : Fault → Bool
  | .badContainer | .badValue | .notUtf8 => true
  | _ => false

/-- Opens a container. Of entries under one name the first gives the place and the last the content. -/
def ofBytes (source : Text) (bs : Bytes) : Except Failure Package :=
  match Zip.read bs with
  | .ok es => .ok ⟨source, es.foldl put [], [], nodup_foldl_put es List.nodup_nil⟩
  | .error f =>
    if isLoadFault f then
      .error (.report ((Report.plain .templateLoad ("Not a readable package: " ++ source)).because f []))
    else .error (.fault f)

def toBytes (p : Package) : Bytes := Zip.write p.entries

def names (p : Package) : List Text := p.entries.map (·.name)

def has (p : Package) (name : Text) : Bool := p.entries.any (·.name = name)

def content? (p : Package) (name : Text) : Option Bytes :=
  (p.entries.find? (·.name = name)).map (·.content)

def read (p : Package) (name : Text) : Except Report Bytes :=
  match p.content? name with
  | some bs => .ok bs
  | none => .error ((Report.plain .templateLoad ("Missing part in " ++ p.source)).inPart name)

def readText (p : Package) (name : Text) : Except Report Text := do
  match Text.ofUtf8? (← p.read name) with
  | some s => return s
  | none => .error ((Report.plain .templateLoad "Part is not UTF-8 text").inPart name
    |>.because .notUtf8 [])

/-- The moment that new parts are given: that of the first entry. -/
def moment (p : Package) : Zip.Moment := (p.entries.head?.map (·.moment)).getD .first

def entryFor (p : Package) (name : Text) (bs : Bytes) : Zip.Entry :=
  match p.entries.find? (·.name = name) with
  | some e => { e with content := bs }
  | none => ⟨name, p.moment, .deflated, 0, 3, bs⟩

def write (p : Package) (name : Text) (bs : Bytes) : Package :=
  { p with
    entries := put p.entries (p.entryFor name bs)
    modified := if p.modified.contains name then p.modified else p.modified ++ [name]
    distinct := nodup_put p.distinct _ }

def writeText (p : Package) (name s : Text) : Package := p.write name (Text.utf8 s)

end Package

end DeckMerge

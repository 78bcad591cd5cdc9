import CacheNode.Text.Quoted

/-! Values laid out for a reader, on one line or with one part on each line. -/

namespace CacheNode.Text

inductive Layout where
  | atom (text : String)
  | wrap (name : String) (inner : Layout)
  /-- Named fields; `more` says that the value has others that are not shown. -/
  | record (name : String) (fields : List (String × Layout)) (more : Bool)
  /-- Values under keys, each key being shown as the text it comes with. -/
  | table (entries : List (String × Layout))
  deriving Inhabited

namespace Layout

def labelled (name text : String) : String := name ++ ": " ++ text

mutual

def inline : Layout → String
  | .atom text => text
  | .wrap name inner => name ++ "(" ++ inner.inline ++ ")"
  | .record name fields more =>
      let parts := inlineParts fields ++ if more then [".."] else []
      name ++ " \x7b " ++ ", ".intercalate parts ++ " \x7d"
  | .table entries => "\x7b" ++ ", ".intercalate (inlineParts entries) ++ "\x7d"

def inlineParts : List (String × Layout) → List String
  | [] => []
  | (name, value) :: rest => labelled name value.inline :: inlineParts rest

end

def newline (depth : Nat) : String := "\n" ++ String.ofList (List.replicate (4 * depth) ' ')

def bracket (depth : Nat) (opening : String) (parts : List String) (closing : String) : String :=
  opening ++ String.join (parts.map (newline (depth + 1) ++ ·)) ++ newline depth ++ closing

mutual

def blockAt (depth : Nat) : Layout → String
  | .atom text => text
  | .wrap name inner => bracket depth (name ++ "(") [inner.blockAt (depth + 1) ++ ","] ")"
  | .record name fields more =>
      let parts := blockParts (depth + 1) fields ++ if more then [".."] else []
      bracket depth (name ++ " \x7b") parts "\x7d"
  | .table [] => "\x7b\x7d"
  | .table (entry :: entries) =>
      bracket depth "\x7b" (blockParts (depth + 1) (entry :: entries)) "\x7d"

def blockParts (depth : Nat) : List (String × Layout) → List String
  | [] => []
  | (name, value) :: rest => (labelled name (value.blockAt depth) ++ ",") :: blockParts depth rest

end

def block (l : Layout) : String := l.blockAt 0

end Layout

class ToLayout (α : Type u) where
  toLayout : α → Layout

export ToLayout (toLayout)

instance : ToLayout Nat := ⟨fun n => .atom (toString n)⟩

instance : ToLayout Int := ⟨fun i => .atom (toString i)⟩

instance : ToLayout Bool := ⟨fun b => .atom (if b then "true" else "false")⟩

instance : ToLayout String := ⟨fun s => .atom (quote s)⟩

instance {α : Type u} [ToLayout α] : ToLayout (Option α) where
  toLayout
    | none => .atom "None"
    | some a => .wrap "Some" (toLayout a)

end CacheNode.Text

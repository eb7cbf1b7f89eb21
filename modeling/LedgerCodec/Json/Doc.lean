import LedgerCodec.Json.Token
/-!
# JSON documents, as far as they can be read

A reader that knows what it expects reports the first problem in the order of
the text, be it a wrong value or broken syntax. A `Doc` therefore holds what
stands before the first syntax error, and marks the place where it stops: lists
and records say whether they were closed, and `broken` stands where a value was
due. `Doc.parse` also says whether the text ends with the document.
-/

namespace LedgerCodec.Json

/-- How a list or a record ends. -/
inductive Ending
  | closed
  /-- Before something that cannot stand there, or at the end of what can be read. -/
  | cut
deriving DecidableEq, Repr

def Ending.isClosed : Ending → Bool
  | .closed => true
  | .cut => false

/-- A JSON document up to its first syntax error. -/
inductive Doc
  | null
  | bool (b : Bool)
  | number (n : Number)
  /-- A text; none if it has half a surrogate pair. -/
  | text (s : Option String)
  | list (items : List Doc) (ending : Ending)
  | record (members : List (Option String × Doc)) (ending : Ending)
  | broken
deriving Repr, Inhabited, BEq

namespace Doc

/-! ## From tokens -/

/-- A list or a record that has been opened; what it holds so far comes last first. -/
inductive Frame
  | list (items : List Doc)
  | record (members : List (Option String × Doc))
  /-- A record, after a key whose value is not known yet. -/
  | member (members : List (Option String × Doc)) (key : Option String)

/-- What may come next. -/
inductive Place
  | value
  /-- A value or the end of a list. -/
  | firstItem
  /-- A key or the end of a record. -/
  | firstKey
  | key
  | colon
  /-- A comma or the end of a list. -/
  | afterItem
  /-- A comma or the end of a record. -/
  | afterMember
deriving DecidableEq, Repr

/-- What a token leads to. -/
inductive Outcome
  | more (frames : List Frame) (place : Place)
  | done (doc : Doc)
  | stuck

/-- Puts a value into the innermost open frame. -/
def put (doc : Doc) : List Frame → Outcome
  | [] => .done doc
  | .list items :: outer => .more (.list (doc :: items) :: outer) .afterItem
  | .member members key :: outer => .more (.record ((key, doc) :: members) :: outer) .afterMember
  | .record _ :: _ => .stuck

def endList : List Frame → Outcome
  | .list items :: outer => put (.list items.reverse .closed) outer
  | _ => .stuck

def endRecord : List Frame → Outcome
  | .record members :: outer => put (.record members.reverse .closed) outer
  | _ => .stuck

/-- Takes a token where a value is due. -/
def startValue (frames : List Frame) : Token → Outcome
  | .null => put .null frames
  | .bool b => put (.bool b) frames
  | .number n => put (.number n) frames
  | .text s => put (.text s) frames
  | .openList => .more (.list [] :: frames) .firstItem
  | .openRecord => .more (.record [] :: frames) .firstKey
  | _ => .stuck

/-- Takes a token where a key is due. -/
def startMember (frames : List Frame) : Token → Outcome
  | .text s =>
    match frames with
    | .record members :: outer => .more (.member members s :: outer) .colon
    | _ => .stuck
  | _ => .stuck

/-- Takes the next token. -/
def advance (frames : List Frame) : Place → Token → Outcome
  | .firstItem, .closeList => endList frames
  | .afterItem, .closeList => endList frames
  | .firstKey, .closeRecord => endRecord frames
  | .afterMember, .closeRecord => endRecord frames
  | .value, t => startValue frames t
  | .firstItem, t => startValue frames t
  | .firstKey, t => startMember frames t
  | .key, t => startMember frames t
  | .colon, .colon => .more frames .value
  | .afterItem, .comma => .more frames .value
  | .afterMember, .comma => .more frames .key
  | _, _ => .stuck

/-- The document that the frames around an unfinished one make. -/
def wrap (doc : Doc) : List Frame → Doc
  | [] => doc
  | .list items :: outer => wrap (.list (doc :: items).reverse .cut) outer
  | .member members key :: outer =>
    wrap (.record ((key, doc) :: members).reverse .cut) outer
  | .record members :: outer => wrap (.record members.reverse .cut) outer

/-- The document that open frames make when nothing that can stand there comes next. -/
def cut : List Frame → Doc
  | .list items :: outer => wrap (.list items.reverse .cut) outer
  | frames => wrap .broken frames

/-- Builds a document from tokens and gives those after it. -/
def build (frames : List Frame) (place : Place) : List Token → Doc × List Token
  | [] => (cut frames, [])
  | token :: rest =>
    match advance frames place token with
    | .more frames place => build frames place rest
    | .done doc => (doc, rest)
    | .stuck => (cut frames, token :: rest)

/-- The document at the front of a text, and whether nothing but blanks follows it. -/
def parse (text : String) : Doc × Bool :=
  let (tokens, whole) := scan text
  let (doc, rest) := build [] .value tokens
  (doc, whole && rest.isEmpty)

/-! ## What is there -/

/-- Whether the document has no syntax error. What is closed has none inside it. -/
def isComplete : Doc → Bool
  | .list _ ending => ending.isClosed
  | .record _ ending => ending.isClosed
  | .broken => false
  | _ => true

/-- Whether every value inside can be held: texts are whole, numbers are in range, and lists and
records nest at most `levels` deep. -/
def isHeld : (levels : Nat) → Doc → Bool
  | _, .null => true
  | _, .bool _ => true
  | _, .number n => n != .beyond
  | _, .text s => s.isSome
  | levels + 1, .list items ending => ending.isClosed && items.all (isHeld levels)
  | levels + 1, .record members ending =>
    ending.isClosed && members.all fun m => m.1.isSome && m.2.isHeld levels
  | _, _ => false

end Doc

end LedgerCodec.Json

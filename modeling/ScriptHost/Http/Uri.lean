/-!
# Addresses of requests

`Uri.parse` reads the four forms of an address: a path with an optional query, an authority alone, a
scheme with authority, path and query, and the lone star. A fragment is dropped, and nothing is decoded or
normalised except that `http` and `https` become lower case. `Uri.text` writes an address.

Each part ends where a separator stands, so it is cut off by `takeWhile` and then checked.
-/

namespace ScriptHost.Http

inductive UriFault where
  | tooLong
  | empty
  | badCharacter
  | badAuthority
  | badFormat
  | schemeTooLong
deriving DecidableEq, Repr

def UriFault.message : UriFault → String
  | .tooLong => "uri too long"
  | .empty => "empty string"
  | .badCharacter => "invalid uri character"
  | .badAuthority => "invalid authority"
  | .badFormat => "invalid format"
  | .schemeTooLong => "scheme too long"

/-- An address. The path is empty only where an authority stands alone. -/
structure Uri where
  scheme? : Option (List Char)
  authority? : Option (List Char)
  path : List Char
  query? : Option (List Char)
deriving DecidableEq, Repr

namespace Uri

/-- The longest address that is read. The next number is kept for saying that there is no query. -/
def maxBytes : Nat := 65534

/-- The longest scheme that is read, unless it is one of the two words. -/
def maxScheme : Nat := 64

/-- The number of colons that may stand between two resets of the count. -/
def maxColons : Nat := 8

/-- The length of a text in bytes, since the limit counts bytes and not characters. -/
def byteCount (text : List Char) : Nat := (text.flatMap String.utf8EncodeChar).length

/-! ## Characters

The sets are those of each part; a separator of a later part belongs to none of the earlier ones. Double quotes
and braces have no place in a path by the grammar of addresses, but clients send them, so they are taken. -/

/-- A character of a scheme. That it begins with a letter is not asked for. -/
def isSchemeChar (c : Char) : Bool := c.isAlphanum || ['+', '-', '.', '~'].contains c

/-- A character of an authority; the percent sign is looked at apart. -/
def isAuthorityChar (c : Char) : Bool := c.isAlphanum || "!$&'()*+,-.:;=@[]_~".toList.contains c

/-- A character of a path: the printable ASCII characters but `#`, `<`, `>`, `?` and the grave accent, and every
character beyond ASCII. Blanks and control characters, DELETE (0x7F) among them, are refused. -/
def isPathChar (c : Char) : Bool :=
  let n := c.toNat
  n == 0x21 || n == 0x22 || (0x24 ≤ n && n ≤ 0x3B) || n == 0x3D || (0x40 ≤ n && n ≤ 0x5F)
    || (0x61 ≤ n && n ≤ 0x7E) || 0x80 ≤ n

/-- A character of a query. Other than a path it may hold `?` and the grave accent, but not the double quote. -/
def isQueryChar (c : Char) : Bool :=
  let n := c.toNat
  n == 0x21 || (0x24 ≤ n && n ≤ 0x3B) || n == 0x3D || (0x3F ≤ n && n ≤ 0x7E) || 0x80 ≤ n

example : isPathChar '\x7f' = false ∧ isQueryChar '\x7f' = false ∧ isPathChar '\x80' = true := by decide

def endsAuthority (c : Char) : Bool := c == '/' || c == '?' || c == '#'

def endsPath (c : Char) : Bool := c == '?' || c == '#'

/-! ## Parts

Each function cuts its part from the front of a text, checks it, and leaves the rest. The scheme comes first,
then the authority, then path and query together. -/

/-- The rest of a text behind a beginning that is spelled in lower or upper case. -/
def afterIgnoringCase? : List Char → List Char → Option (List Char)
  | [], rest => some rest
  | _ :: _, [] => none
  | e :: expected, c :: rest => if c.toLower = e then afterIgnoringCase? expected rest else none

/-- A scheme in front, without the `://` behind it, and what follows that. -/
def splitScheme (text : List Char) : Except UriFault (Option (List Char) × List Char) :=
  match afterIgnoringCase? "http://".toList text with
  | some rest => .ok (some "http".toList, rest)
  | none =>
    match afterIgnoringCase? "https://".toList text with
    | some rest => .ok (some "https".toList, rest)
    | none =>
      match text.dropWhile isSchemeChar with
      | ':' :: '/' :: '/' :: rest =>
        let scheme := text.takeWhile isSchemeChar
        -- three characters are `://` alone, with no scheme in front
        if text.length ≤ 3 then .ok (none, text)
        else if scheme.length ≤ maxScheme then .ok (some scheme, rest)
        else .error .schemeTooLong
      | _ => .ok (none, text)

/-- What has been seen of an authority: colons and a percent sign since the last reset, and brackets. -/
structure Scan where
  colons : Nat
  percent : Bool
  opened : Bool
  closed : Bool
deriving DecidableEq, Repr

def Scan.start : Scan := ⟨0, false, false, false⟩

/-- One more character of an authority. Colons are counted, so that at most one separates a port in the end. -/
def Scan.step (s : Scan) (c : Char) : Except UriFault Scan :=
  if c = ':' then
    if maxColons ≤ s.colons then .error .badAuthority else .ok { s with colons := s.colons + 1 }
  else if c = '[' then
    if s.percent || s.opened then .error .badAuthority else .ok { s with opened := true }
  -- the colons inside brackets separate no port
  else if c = ']' then
    if !s.opened || s.closed then .error .badAuthority
    else .ok { s with closed := true, colons := 0, percent := false }
  -- what stands before an `@` names a user, and may have colons and escapes
  else if c = '@' then .ok { s with colons := 0, percent := false }
  else if c = '%' then .ok { s with percent := true }
  else if isAuthorityChar c then .ok s
  else .error .badCharacter

/-- The characters of an authority, from a scan part way through. -/
def Scan.run (s : Scan) : List Char → Except UriFault Scan
  | [] => .ok s
  | c :: rest =>
    match s.step c with
    | .error fault => .error fault
    | .ok s => s.run rest

/-- Checks an authority: brackets come in a pair, at most one colon and no percent sign are left, and
something follows an `@`. -/
def checkAuthority (authority : List Char) : Except UriFault Unit :=
  match Scan.start.run authority with
  | .error fault => .error fault
  | .ok s =>
    if s.opened != s.closed || 1 < s.colons || s.percent || authority.getLast? == some '@' then
      .error .badAuthority
    else .ok ()

/-- An authority in front that passes the check, and what follows it. -/
def splitAuthority (text : List Char) : Except UriFault (List Char × List Char) :=
  if text = [] then .error .empty
  else
    let authority := text.takeWhile fun c => !endsAuthority c
    match checkAuthority authority with
    | .error fault => .error fault
    | .ok () => .ok (authority, text.dropWhile fun c => !endsAuthority c)

/-- The query that begins at a question mark, up to a fragment. -/
def splitQuery : List Char → Except UriFault (Option (List Char))
  | '?' :: rest =>
    let query := rest.takeWhile (· != '#')
    if query.all isQueryChar then .ok (some query) else .error .badCharacter
  | _ => .ok none

/-- A path with an optional query; an empty path is the root. -/
def pathAndQuery (text : List Char) : Except UriFault (List Char × Option (List Char)) :=
  let path := text.takeWhile fun c => !endsPath c
  if path.all isPathChar then do
    let query ← splitQuery (text.dropWhile fun c => !endsPath c)
    return (if path = [] then ['/'] else path, query)
  else .error .badCharacter

/-! ## Reading and writing

A text of one character is looked at apart, since it can be a path, a star or an authority. `text` writes the
parts back as they were read, so that only a dropped fragment and the case of the two words are lost. -/

/-- An address that is no path: with a scheme, or an authority alone. -/
def parseFull (text : List Char) : Except UriFault Uri := do
  let (scheme?, rest) ← splitScheme text
  let (authority, rest) ← splitAuthority rest
  match scheme? with
  | none =>
    if rest = [] then return ⟨none, some authority, [], none⟩
    else .error .badFormat
  | some scheme =>
    if authority = [] then .error .badFormat
    else
      let (path, query) ← pathAndQuery rest
      return ⟨some scheme, some authority, path, query⟩

/-- A single character: the root, the star, or an authority. -/
def parseSingle (c : Char) : Except UriFault Uri :=
  if c = '/' ∨ c = '*' then .ok ⟨none, none, [c], none⟩
  else do
    let (authority, rest) ← splitAuthority [c]
    if rest = [] then return ⟨none, some authority, [], none⟩
    else .error .badCharacter

/-- Reads an address. What begins with a slash is a path, and only other texts may have a scheme. -/
def parse (text : List Char) : Except UriFault Uri :=
  if maxBytes < byteCount text then .error .tooLong
  else
    match text with
    | [] => .error .empty
    | [c] => parseSingle c
    | c :: rest =>
      if c = '/' then do
        let (path, query) ← pathAndQuery (c :: rest)
        return ⟨none, none, path, query⟩
      else parseFull (c :: rest)

def text (u : Uri) : List Char :=
  (match u.scheme? with
    | some scheme => scheme ++ [':', '/', '/']
    | none => [])
  ++ u.authority?.getD [] ++ u.path
  ++ (match u.query? with
    | some query => '?' :: query
    | none => [])

end Uri

end ScriptHost.Http

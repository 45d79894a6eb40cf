import MdxProse.Text.Blank

/-! # Link addresses

An address is taken apart into protocol, credentials, host, port and the rest, put together again,
and percent-encoded. Going through the parts changes little: an empty port or empty credentials
vanish, and what looks like a host but cannot be one goes back into the path. The encoding leaves
existing escapes alone, so that it changes nothing the second time.
-/

namespace MdxProse.Link

/-- The parts of an address. -/
structure Url where
  /-- With its colon; empty if there is none. -/
  protocol : List Char
  /-- Do two slashes come before the host? -/
  slashes : Bool
  auth : List Char
  host : List Char
  port : List Char
  /-- Path, query and fragment. -/
  rest : List Char
  deriving DecidableEq, Repr

namespace Url

/-- Letters that count as ASCII letters when case is ignored. -/
def isLetter (c : Char) : Bool :=
  c.isAlpha || c == '\u0130' || c == '\u0131' || c == '\u017F' || c == '\u212A'

/-- The protocol at the start of an address, with its colon, and what follows. -/
def splitProtocol (w : List Char) : List Char × List Char :=
  let isPart (c : Char) : Bool := isLetter c || c.isDigit || c == '.' || c == '+' || c == '-'
  let name := w.takeWhile isPart
  match name, w.dropWhile isPart with
  | _ :: _, ':' :: rest => (name ++ [':'], rest)
  | _, _ => ([], w)

/-- Protocols after which no host comes. -/
def isHostless (protocol : List Char) : Bool :=
  protocol == "javascript:".toList

/-- Protocols that have a host only after two slashes. -/
def isSlashed (protocol : List Char) : Bool :=
  ["http:", "https:", "ftp:", "gopher:", "file:"].any (·.toList == protocol)

/-- A character that ends a host. -/
def endsHost (c : Char) : Bool :=
  "%/?;#'\x7b\x7d|\\^\x60<>\" \r\n\t".toList.contains c

/-- The credentials before the last `@` ahead of any slash, query or fragment, and what follows
them. -/
def splitAuth (w : List Char) : List Char × List Char :=
  let reach := w.takeWhile fun c => !(c == '/' || c == '?' || c == '#')
  match reach.reverse.dropWhile (· != '@') with
  | [] => ([], w)
  | _ :: auth => (auth.reverse, w.drop (auth.length + 1))

/-- The port at the end of a host: the host before the last colon, and the digits after it. -/
def splitPort (host : List Char) : List Char × List Char :=
  let digits := (host.reverse.takeWhile Char.isDigit).reverse
  match host.reverse.dropWhile Char.isDigit with
  | ':' :: before => (before.reverse, digits)
  | _ => (host, [])

/-- A character of a part of a host. -/
def isHostChar (c : Char) : Bool :=
  c.isAlphanum || c == '+' || c == '_' || c == '-'

/-- A part of a host: at most 63 host characters, others than ASCII standing for one each. -/
def isHostPart (part : List Char) : Bool :=
  part.length ≤ 63 && part.all fun c => isHostChar c || 127 < c.toNat

/-- The parts joined by dots. -/
def joinDots (parts : List (List Char)) : List Char :=
  ['.'].intercalate parts

/-- The parts of a host up to the first that is none, of which a beginning is kept; the rest of the
host comes second. -/
def checkParts : List (List Char) → List (List Char) × Option (List Char)
  | [] => ([], none)
  | p :: ps =>
    if isHostPart p then
      let (kept, rest) := checkParts ps
      (p :: kept, rest)
    else
      let kept := (p.takeWhile isHostChar).take 63
      ([kept], some (joinDots (p.drop kept.length :: ps)))

/-- The host in its final form, and the characters that go back into the path. -/
def checkHost (host : List Char) : List Char × List Char :=
  match host with
  | '[' :: _ =>
    if host.getLast? == some ']' then
      (if 255 < host.length then [] else (host.drop 1).dropLast, [])
    else check
  | _ => check
where
  /-- The check of a host that is no address in brackets. -/
  check : List Char × List Char :=
    let (parts, rest) := checkParts (Text.splitOn '.' host)
    let kept := joinDots parts
    (if 255 < kept.length then [] else kept, rest.getD [])

/-- An address with a host, read from after the protocol and slashes. -/
def readHost (protocol : List Char) (slashes : Bool) (w : List Char) : Url :=
  let (auth, w) := splitAuth w
  let reach := w.takeWhile (!endsHost ·)
  let reach := if reach.getLast? == some ':' then reach.dropLast else reach
  let (host, port) := splitPort reach
  let (host, back) := checkHost host
  ⟨protocol, slashes, auth, host, port, back ++ w.drop reach.length⟩

/-- The parts of an address. Two slashes always announce a host; after most protocols one comes
even without them. -/
def read (address : List Char) : Url :=
  let (protocol, w) := splitProtocol (Text.trim Text.isBlank address)
  match w with
  | '/' :: '/' :: rest =>
    if isHostless protocol then ⟨protocol, false, [], [], [], w⟩ else readHost protocol true rest
  | _ =>
    if protocol.isEmpty || isSlashed protocol || isHostless protocol then
      ⟨protocol, false, [], [], [], w⟩
    else readHost protocol false w

/-- The address of the parts. -/
def write (u : Url) : List Char :=
  u.protocol ++ (if u.slashes then ['/', '/'] else []) ++
    (if u.auth.isEmpty then [] else u.auth ++ ['@']) ++
    (if u.host.contains ':' then '[' :: u.host ++ [']'] else u.host) ++
    (if u.port.isEmpty then [] else ':' :: u.port) ++ u.rest

end Url

/-! ### Percent-encoding -/

/-- A hexadecimal digit below sixteen. -/
def hexDigit (n : Nat) : Char :=
  if n < 10 then Char.ofNat ('0'.toNat + n) else Char.ofNat ('A'.toNat + (n - 10))

/-- Is the character a hexadecimal digit? -/
def isHex (c : Char) : Bool :=
  c.isDigit || ('a' ≤ c && c ≤ 'f') || ('A' ≤ c && c ≤ 'F')

/-- A byte as an escape. -/
def encodeByte (b : UInt8) : List Char :=
  ['%', hexDigit (b.toNat / 16), hexDigit (b.toNat % 16)]

/-- A character that needs no escape. -/
def isUnreserved (c : Char) : Bool :=
  c.isAlphanum || ";/?:@&=+$,-_.!~*'()#".toList.contains c

/-- A character as it stands in an address: itself, or its UTF-8 bytes as escapes. -/
def encodeChar (c : Char) : List Char :=
  if isUnreserved c then [c] else (String.singleton c).toUTF8.toList.flatMap encodeByte

/-- An address with all that needs it escaped; what is an escape already stays one. -/
def encode : List Char → List Char
  | [] => []
  | '%' :: a :: b :: r =>
    if isHex a && isHex b then '%' :: a :: b :: encode r else encodeChar '%' ++ encode (a :: b :: r)
  | c :: r => encodeChar c ++ encode r

/-- An address as it is written into a document. -/
def normalizeUrl (address : List Char) : List Char :=
  encode (Url.read address).write

/-- Is an address fit to be linked? Scripts and local files are not, nor embedded data but
images. -/
def isSafe (address : List Char) : Bool :=
  let lowered := (Text.trim Text.isBlank address).map Char.toLower
  let startsWith (s : String) : Bool := s.toList.isPrefixOf lowered
  !(["vbscript:", "javascript:", "file:", "data:"].any startsWith) ||
    ["data:image/gif;", "data:image/png;", "data:image/jpeg;", "data:image/webp;"].any startsWith

end MdxProse.Link

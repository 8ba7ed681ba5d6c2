import StorageReconciler.Foundations.PercentCoding
import StorageReconciler.Foundations.UrlSplit

/-!
# Opening a URL

How `urllib.request` reads a URL that it opens, and the host that is connected
to for it.  `urlsplit` reads the same URL in another way: here the network
location is percent-decoded and cut at its last colon, and a user before the
host is part of the host.
-/

namespace StorageReconciler.UrlRequest

open Strings UrlSplit PercentCoding

/-! ## The reading of a URL -/

def unwrap (url : Str) : Str :=
  let url := strip url
  let url :=
    if url.head? == some '<' && url.getLast? == some '>' then strip url.tail.dropLast else url
  if "URL:".toList.isPrefixOf url then strip (url.drop 4) else url

/-- The text before the last `c`, if there is one. -/
def beforeLast (c : Char) (s : Str) : Str := (s.rdropWhile (· != c)).dropLast

def splitTag (url : Str) : Str := if url.contains '#' then beforeLast '#' url else url

def endsType (c : Char) : Bool := c == '/' || c == ':'

/-- `^([^/:]+):(.*)` -/
def splitType (T : Tables) (url : Str) : Option (Str × Str) :=
  match url.takeWhile (!endsType ·), url.dropWhile (!endsType ·) with
  | c :: scheme, ':' :: rest => some (lower T (c :: scheme), rest)
  | _, _ => none

/-- `^//([^/#?]*)(.*)` -/
def splitHost : Str → Option Str × Str
  | '/' :: '/' :: rest =>
      let path := rest.dropWhile (!endsNetloc ·)
      (some (rest.takeWhile (!endsNetloc ·)),
        if path = [] ∨ path.head? = some '/' then path else '/' :: path)
  | url => (none, url)

structure Request where
  type : Str
  host : Option Str
  selector : Str
  deriving DecidableEq

/-- There is no request for a URL without a type: the constructor raises. -/
def Request.ofUrl (T : Tables) (url : Str) : Option Request :=
  (splitType T (splitTag (unwrap url))).map fun (type, rest) ↦
    ⟨type, (splitHost rest).1.map unquote, (splitHost rest).2⟩

/-! ## Hosts and ports -/

def isDecimal (T : Tables) (c : Char) : Bool := c.isDigit || !isAscii c && T.isDecimal c

/-- `int(s)` is a number: digits with single underscores between them, after a sign or not,
and not too many of them. -/
def readsInt (T : Tables) (s : Str) : Bool :=
  let s := strip s
  let s := if s.head? == some '+' || s.head? == some '-' then s.tail else s
  (s.splitOn '_').all (fun group ↦ !group.isEmpty && group.all (isDecimal T)) &&
    decide (s.countP (isDecimal T) ≤ 4300)

def unbracket (host : Str) : Str :=
  if host.head? == some '[' && host.getLast? == some ']' then host.tail.dropLast else host

/-- The host without its port, which is after the last colon outside brackets. -/
def getHostport (T : Tables) (host : Str) : Option Str :=
  let port := host.rtakeWhile (· != ':')
  if host.contains ':' && !port.contains ']' then
    if port.isEmpty || readsInt T port then some (unbracket (beforeLast ':' host)) else none
  else some (unbracket host)

/-- A character that no host and no selector may have. -/
def isDisallowed (c : Char) : Bool := decide (c.toNat ≤ 0x20) || c.toNat == 0x7F

/-- A line break that does not continue the value on the next line. -/
def isIllegalHeaderValue : Str → Bool
  | [] => false
  | c :: rest =>
      (c == '\n' && !rest.head?.any fun d ↦ d == ' ' || d == '\t') ||
        (c == '\r' && !rest.head?.any fun d ↦ d == ' ' || d == '\t' || d == '\n') ||
        isIllegalHeaderValue rest

/-- The name can be encoded to be looked up. -/
def idnaEncodes (T : Tables) (name : Str) : Bool :=
  if name.all isAscii then
    let labels := name.splitOn '.'
    labels.dropLast.all (fun label ↦ !label.isEmpty) &&
      labels.all fun label ↦ decide (label.length < 64)
  else T.idnaOk name

/-- The host that `http.client` connects to; there is none where it raises before. -/
def httpHost (T : Tables) (host selector : Str) : Option Str :=
  (getHostport T host).filter fun name ↦
    !name.any isDisallowed && !selector.any isDisallowed && selector.all isAscii &&
      host.all (fun c ↦ decide (c.toNat < 256)) && !isIllegalHeaderValue host &&
      idnaEncodes T name

/-- The host that `ftplib` connects to, without user and port and decoded once more. -/
def ftpHost (T : Tables) (host : Str) : Option Str :=
  let port := host.rtakeWhile (· != ':')
  let hasPort := host.contains ':' && !port.isEmpty && port.all Char.isDigit
  let host := if hasPort then beforeLast ':' host else host
  let name := unquote (host.rtakeWhile (· != '@'))
  if (hasPort && !readsInt T port) || name.contains (Char.ofNat 0) || !idnaEncodes T name then none
  else some name

/-! ## Connecting -/

/-- Nothing is connected to: an error that counts as one of the URL, or any other. -/
inductive NoConnection where
  | urlError (reason : Str)
  | raised
  deriving DecidableEq

/-- The host that opening the request connects to, without proxies. -/
def Request.connection (T : Tables) (request : Request) : Except NoConnection Str :=
  let host := request.host.getD []
  if request.type = "http".toList ∨ request.type = "https".toList then
    if host = [] then .error (.urlError "no host given".toList)
    else
      match httpHost T host request.selector with
      | some name => .ok name
      | none => .error .raised
  else if request.type = "ftp".toList then
    if host = [] then .error (.urlError "ftp error: no host given".toList)
    else
      match ftpHost T host with
      | some name => .ok name
      | none => .error .raised
  else .error (.urlError ("unknown url type: ".toList ++ request.type))

end StorageReconciler.UrlRequest

import DataQ.Foundations.Text
import Mathlib.Tactic.Common

/-! # Splitting URLs

`urllib.parse.urlsplit`, the parts of a network location that its result has, and `urlunsplit`. What
is put together of parts that keep to their places is split into them. -/

namespace DataQ.Urls
set_option autoImplicit false

/-! ## Cuts -/

section Cut
variable {α : Type*} [DecidableEq α]

/-- `str.partition`: what stands before the first of an element, and what after it where there is
one. -/
def cut (a : α) : List α → List α × Option (List α)
  | [] => ([], none)
  | b :: rest =>
    if b = a then ([], some rest)
    else (b :: (cut a rest).1, (cut a rest).2)

/-- `str.rpartition`: what stands before the last of an element, where there is one, and the rest. -/
def cutLast (a : α) (l : List α) : Option (List α) × List α :=
  match cut a l.reverse with
  | (_, none) => (none, l)
  | (after, some before) => (some before.reverse, after.reverse)

theorem cut_of_not_mem {a : α} {l : List α} (h : a ∉ l) : cut a l = (l, none) := by
  induction l with
  | nil => rfl
  | cons b rest ih =>
    rw [List.mem_cons, not_or] at h
    rw [cut, if_neg (Ne.symm h.1), ih h.2]

theorem cut_append {a : α} {before : List α} (h : a ∉ before) (after : List α) :
    cut a (before ++ a :: after) = (before, some after) := by
  induction before with
  | nil => rw [List.nil_append, cut, if_pos rfl]
  | cons b rest ih =>
    rw [List.mem_cons, not_or] at h
    rw [List.cons_append, cut, if_neg (Ne.symm h.1), ih h.2]

theorem not_mem_cut (a : α) (l : List α) : a ∉ (cut a l).1 := by
  induction l with
  | nil => exact List.not_mem_nil
  | cons b rest ih =>
    rw [cut]
    split
    · exact List.not_mem_nil
    · next hne =>
      rw [List.mem_cons, not_or]
      exact ⟨Ne.symm hne, ih⟩

theorem cut_append_cut (a : α) (l : List α) :
    (cut a l).1 ++ ((cut a l).2.map (a :: ·)).getD [] = l := by
  induction l with
  | nil => rfl
  | cons b rest ih =>
    rw [cut]
    split
    · next heq => rw [heq]; rfl
    · rw [List.cons_append, ih]

theorem cut_append_of_mem {a : α} {l : List α} (h : a ∈ l) (rest : List α) :
    (cut a (l ++ rest)).1 = (cut a l).1 := by
  induction l with
  | nil => cases h
  | cons b l ih =>
    rw [List.cons_append, cut, cut]
    split
    · rfl
    · next hne => rw [ih ((List.mem_cons.mp h).resolve_left (Ne.symm hne))]

theorem cutLast_of_not_mem {a : α} {l : List α} (h : a ∉ l) : cutLast a l = (none, l) := by
  rw [cutLast, cut_of_not_mem (by rwa [List.mem_reverse])]

theorem cutLast_append {a : α} {after : List α} (h : a ∉ after) (before : List α) :
    cutLast a (before ++ a :: after) = (some before, after) := by
  have hreverse : (before ++ a :: after).reverse = after.reverse ++ a :: before.reverse := by simp
  rw [cutLast, hreverse, cut_append (by rwa [List.mem_reverse])]
  simp only [List.reverse_reverse]

end Cut

/-! ## Splitting -/

/-- What is taken of `str`, `unicodedata` and `ipaddress`. -/
structure Library where
  lower : Text → Text
  nfkc : Text → Text
  ipVersion : Text → Option ℕ

structure SplitResult where
  scheme : Text
  netloc : Text
  path : Text
  query : Text
  fragment : Text
  deriving DecidableEq

def schemeChar (c : Char) : Bool := c.isAlphanum || c ∈ ['+', '-', '.']

def hexDigit (c : Char) : Bool := c.isDigit || ('a' ≤ c && c ≤ 'f') || ('A' ≤ c && c ≤ 'F')

/-- `_WHATWG_C0_CONTROL_OR_SPACE`. -/
def controlOrSpace (c : Char) : Bool := c.toNat ≤ 32

/-- The characters that `urlsplit` drops wherever they stand. -/
def dropped (c : Char) : Bool := c ∈ ['\t', '\r', '\n']

def endsNetloc (c : Char) : Bool := c ∈ ['/', '?', '#']

def splitScheme (url : Text) : Text × Text :=
  match cut ':' url with
  | (c :: scheme, some rest) =>
    if c.isAlpha && (c :: scheme).all schemeChar then (DataQ.lower (c :: scheme), rest) else ([], url)
  | _ => ([], url)

def splitNetloc (url : Text) : Text × Text :=
  match url with
  | '/' :: '/' :: rest => (rest.takeWhile (!endsNetloc ·), rest.dropWhile (!endsNetloc ·))
  | _ => ([], url)

section Library
variable (library : Library)

/-- `_check_bracketed_host`. -/
def checkBracketedHost (host : Text) : Bool :=
  match host with
  | 'v' :: rest =>
    match rest.takeWhile hexDigit, rest.dropWhile hexDigit with
    | _ :: _, '.' :: _ :: _ => true
    | _, _ => false
  | _ => library.ipVersion host = some 6

/-- `_check_bracketed_netloc`. -/
def checkBracketedNetloc (netloc : Text) : Bool :=
  match cut '[' (cutLast '@' netloc).2 with
  | (before, some bracketed) =>
    before = [] && (((cut ']' bracketed).2.getD []).head?.all fun c => c = ':') &&
      checkBracketedHost library (cut ']' bracketed).1
  | (_, none) => checkBracketedHost library (cut ':' (cutLast '@' netloc).2).1

/-- `_checknetloc`. -/
def checkNetloc (netloc : Text) : Bool :=
  netloc.all (fun c => c.toNat < 128) ||
    let n := netloc.filter fun c => c ∉ ['@', ':', '#', '?']
    n = library.nfkc n || !(library.nfkc n).any fun c => c ∈ ['/', '?', '#', '@', ':']

def netlocAccepted (netloc : Text) : Bool :=
  netloc.contains '[' = netloc.contains ']' &&
    (!netloc.contains '[' || checkBracketedNetloc library netloc) && checkNetloc library netloc

/-- `urlsplit`; `none` where it raises. -/
def urlsplit (url : Text) : Option SplitResult :=
  let (scheme, url) := splitScheme ((url.dropWhile controlOrSpace).filter (!dropped ·))
  let (netloc, url) := splitNetloc url
  let (url, fragment) := cut '#' url
  let (path, query) := cut '?' url
  if netlocAccepted library netloc then
    some ⟨scheme, netloc, path, query.getD [], fragment.getD []⟩
  else none

/-- The host and the port of what stands after the user's name; an empty port is none. -/
def locate (hostinfo : Text) : Text × Option Text :=
  let (host, port) :=
    match cut '[' hostinfo with
    | (_, some bracketed) => ((cut ']' bracketed).1, (cut ':' ((cut ']' bracketed).2.getD [])).2)
    | (_, none) => cut ':' hostinfo
  (host, port.filter (· ≠ []))

namespace SplitResult
variable (parts : SplitResult)

def username : Option Text :=
  (cutLast '@' parts.netloc).1.map fun userinfo => (cut ':' userinfo).1

def password : Option Text := (cutLast '@' parts.netloc).1.bind fun userinfo => (cut ':' userinfo).2

/-- `_hostinfo`. -/
def hostinfo : Text × Option Text := locate (cutLast '@' parts.netloc).2

def hostname : Option Text :=
  match parts.hostinfo.1 with
  | [] => none
  | host =>
    some (library.lower (cut '%' host).1 ++ ((cut '%' host).2.map ('%' :: ·)).getD [])

/-- `none` where it raises. -/
def port : Option (Option ℕ) :=
  match parts.hostinfo.2 with
  | none => some none
  | some port =>
    if port.all Char.isDigit && Nat.ofDigitChars 10 port 0 ≤ 65535 then
      some (some (Nat.ofDigitChars 10 port 0))
    else none

end SplitResult

end Library

def usesNetloc : List Text :=
  ["".toList, "ftp".toList, "http".toList, "gopher".toList, "nntp".toList, "telnet".toList,
    "imap".toList, "wais".toList, "file".toList, "mms".toList, "https".toList, "shttp".toList,
    "snews".toList, "prospero".toList, "rtsp".toList, "rtsps".toList, "rtspu".toList, "rsync".toList,
    "svn".toList, "svn+ssh".toList, "sftp".toList, "nfs".toList, "git".toList, "git+ssh".toList,
    "ws".toList, "wss".toList, "itms-services".toList]

def urlunsplit (parts : SplitResult) : Text :=
  let url := parts.path
  let url :=
    if parts.netloc ≠ [] then
      "//".toList ++ parts.netloc ++ (if url ≠ [] ∧ url.head? ≠ some '/' then '/' :: url else url)
    else if "//".toList.isPrefixOf url then "//".toList ++ url
    else if parts.scheme ≠ [] ∧ parts.scheme ∈ usesNetloc ∧ (url = [] ∨ url.head? = some '/') then
      "//".toList ++ url
    else url
  let url := if parts.scheme ≠ [] then parts.scheme ++ ':' :: url else url
  let url := if parts.query ≠ [] then url ++ '?' :: parts.query else url
  if parts.fragment ≠ [] then url ++ '#' :: parts.fragment else url

/-! ## What was put together -/

/-- A URL of its parts, with or without a query and a fragment. -/
def render (scheme netloc path : Text) (query fragment : Option Text) : Text :=
  scheme ++ ':' :: '/' :: '/' :: (netloc ++ (path ++ ((query.map ('?' :: ·)).getD [] ++
    (fragment.map ('#' :: ·)).getD [])))

/-- Each part keeps to its place. -/
structure InPlace (library : Library) (scheme netloc path : Text) (query fragment : Option Text) :
    Prop where
  scheme_head : ∃ c rest, scheme = c :: rest ∧ c.isAlpha = true
  scheme_all : scheme.all schemeChar = true
  netloc_all : ∀ c ∈ netloc, endsNetloc c = false
  path_head : path = [] ∨ ∃ rest, path = '/' :: rest
  path_all : '#' ∉ path ∧ '?' ∉ path
  query_all : ∀ q, query = some q → '#' ∉ q
  kept : ∀ c ∈ render scheme netloc path query fragment, dropped c = false
  accepted : netlocAccepted library netloc = true

theorem not_colon_of_schemeChar {c : Char} (h : schemeChar c = true) : c ≠ ':' := by
  rintro rfl
  revert h
  decide

theorem not_control_of_isAlpha {c : Char} (h : c.isAlpha = true) : controlOrSpace c = false := by
  have hc : 65 ≤ c.toNat := by
    rw [isAlpha_eq, Bool.or_eq_true, isUpper_iff, isLower_iff] at h
    omega
  rw [controlOrSpace, decide_eq_false_iff_not]
  omega

/-- What is put together in place is split again. -/
theorem urlsplit_render {library : Library} {scheme netloc path : Text}
    {query fragment : Option Text} (h : InPlace library scheme netloc path query fragment) :
    urlsplit library (render scheme netloc path query fragment) =
      some ⟨DataQ.lower scheme, netloc, path, query.getD [], fragment.getD []⟩ := by
  obtain ⟨c, rest, hscheme, halpha⟩ := h.scheme_head
  have hstart : (render scheme netloc path query fragment).dropWhile controlOrSpace =
      render scheme netloc path query fragment := by
    rw [render, hscheme, List.cons_append, List.dropWhile_cons_of_neg]
    simp [not_control_of_isAlpha halpha]
  have hfilter : (render scheme netloc path query fragment).filter (!dropped ·) =
      render scheme netloc path query fragment := by
    rw [List.filter_eq_self]
    intro c hc
    rw [h.kept c hc]
    rfl
  have hcolon : ':' ∉ scheme := fun hmem =>
    not_colon_of_schemeChar (List.all_eq_true.mp h.scheme_all ':' hmem) rfl
  generalize htail : path ++ ((query.map ('?' :: ·)).getD [] ++
    (fragment.map ('#' :: ·)).getD []) = tail
  have hsplit : splitScheme (render scheme netloc path query fragment) =
      (DataQ.lower scheme, '/' :: '/' :: (netloc ++ tail)) := by
    have hall := h.scheme_all
    rw [hscheme] at hcolon hall ⊢
    rw [splitScheme, render, htail, cut_append hcolon]
    simp only [halpha, hall, Bool.and_self, if_true]
  have hends : tail.takeWhile (!endsNetloc ·) = [] ∧ tail.dropWhile (!endsNetloc ·) = tail := by
    rw [← htail]
    obtain rfl | ⟨rest, rfl⟩ := h.path_head
    · cases query with
      | some q => exact ⟨rfl, rfl⟩
      | none => cases fragment <;> exact ⟨rfl, rfl⟩
    · exact ⟨rfl, rfl⟩
  have hnetloc : splitNetloc ('/' :: '/' :: (netloc ++ tail)) = (netloc, tail) := by
    have hin : ∀ c ∈ netloc, (!endsNetloc c) = true := fun c hc => by rw [h.netloc_all c hc]; rfl
    rw [splitNetloc, List.takeWhile_append_of_pos hin, List.dropWhile_append_of_pos hin, hends.1,
      hends.2, List.append_nil]
  have hfragment : cut '#' tail = (path ++ (query.map ('?' :: ·)).getD [], fragment) := by
    have hbefore : '#' ∉ path ++ (query.map ('?' :: ·)).getD [] := by
      rw [List.mem_append, not_or]
      refine ⟨h.path_all.1, ?_⟩
      cases query with
      | none => exact List.not_mem_nil
      | some q => simpa using h.query_all q rfl
    rw [← htail, ← List.append_assoc]
    cases fragment with
    | none =>
      rw [Option.map_none, Option.getD_none, List.append_nil]
      exact cut_of_not_mem hbefore
    | some f => exact cut_append hbefore f
  have hquery : cut '?' (path ++ (query.map ('?' :: ·)).getD []) = (path, query) := by
    cases query with
    | none =>
      rw [Option.map_none, Option.getD_none, List.append_nil]
      exact cut_of_not_mem h.path_all.2
    | some q => exact cut_append h.path_all.2 q
  simp only [urlsplit, hstart, hfilter, hsplit, hnetloc, hfragment, hquery, h.accepted, if_true]

/-- `urlunsplit` puts the parts together, where there is a scheme and a network location. -/
theorem urlunsplit_eq {parts : SplitResult} (hscheme : parts.scheme ≠ [])
    (hnetloc : parts.netloc ≠ []) (hpath : parts.path = [] ∨ ∃ rest, parts.path = '/' :: rest) :
    urlunsplit parts =
      render parts.scheme parts.netloc parts.path
        (if parts.query = [] then none else some parts.query)
        (if parts.fragment = [] then none else some parts.fragment) := by
  have hslash : (if parts.path ≠ [] ∧ parts.path.head? ≠ some '/' then '/' :: parts.path
      else parts.path) = parts.path := by
    obtain hnil | ⟨rest, hrest⟩ := hpath
    · rw [hnil]
      rfl
    · rw [hrest]
      rfl
  simp only [urlunsplit, hscheme, hnetloc, hslash, ne_eq, not_false_eq_true, if_true]
  by_cases hquery : parts.query = [] <;> by_cases hfragment : parts.fragment = [] <;>
    simp [hquery, hfragment, render]

/-! ## Hosts and ports -/

def portText (port : Option Text) : Text := (port.map (':' :: ·)).getD []

theorem locate_name {host : Text} {port : Option Text} (hbracket : '[' ∉ host ++ portText port)
    (hcolon : ':' ∉ host) : locate (host ++ portText port) = (host, port.filter (· ≠ [])) := by
  rw [locate, cut_of_not_mem hbracket]
  cases port with
  | none =>
    rw [portText, Option.map_none, Option.getD_none, List.append_nil]
    simp only [cut_of_not_mem hcolon, Option.filter_none]
  | some port =>
    rw [portText, Option.map_some, Option.getD_some]
    simp only [cut_append hcolon]

theorem locate_literal {host : Text} {port : Option Text} (hbracket : ']' ∉ host) :
    locate ('[' :: (host ++ ']' :: portText port)) = (host, port.filter (· ≠ [])) := by
  have hopen : cut '[' ('[' :: (host ++ ']' :: portText port)) =
      ([], some (host ++ ']' :: portText port)) := by
    rw [cut, if_pos rfl]
  rw [locate, hopen]
  simp only [cut_append hbracket, Option.getD_some]
  cases port with
  | none => rfl
  | some port => simp only [portText, Option.map_some, Option.getD_some, cut, if_true]

/-- A host that is not in brackets ends at its first colon. -/
theorem locate_of_colon {host rest : Text} (hbracket : '[' ∉ host ++ rest) (hcolon : ':' ∈ host) :
    (locate (host ++ rest)).1 = (cut ':' host).1 := by
  rw [locate, cut_of_not_mem hbracket]
  exact cut_append_of_mem hcolon rest

/-- A host in small letters, up to its zone. -/
def lowerHost (host : Text) : Text :=
  DataQ.lower (cut '%' host).1 ++ ((cut '%' host).2.map ('%' :: ·)).getD []

theorem mem_lowerHost {d : Char} (hd : d.isAlpha = false) {host : Text} :
    d ∈ lowerHost host ↔ d ∈ host := by
  conv => rhs; rw [← cut_append_cut '%' host]
  rw [lowerHost, List.mem_append, List.mem_append, mem_lower_iff hd]

theorem exists_of_mem_lowerHost {c : Char} {host : Text} (h : c ∈ lowerHost host) :
    ∃ d ∈ host, c = d ∨ c = d.toLower := by
  rw [← cut_append_cut '%' host]
  simp only [List.mem_append]
  rw [lowerHost, List.mem_append] at h
  obtain hname | hzone := h
  · obtain ⟨d, hd, rfl⟩ := List.mem_map.mp hname
    exact ⟨d, .inl hd, .inr rfl⟩
  · exact ⟨c, .inr hzone, .inl rfl⟩

theorem lowerHost_lowerHost (host : Text) : lowerHost (lowerHost host) = lowerHost host := by
  have hpercent : '%' ∉ DataQ.lower (cut '%' host).1 := by
    rw [mem_lower_iff (by decide)]
    exact not_mem_cut '%' host
  unfold lowerHost
  cases (cut '%' host).2 with
  | none =>
    rw [Option.map_none, Option.getD_none, List.append_nil, cut_of_not_mem hpercent, lower_lower]
    exact List.append_nil _
  | some zone =>
    rw [Option.map_some, Option.getD_some, cut_append hpercent, lower_lower]
    rfl

theorem lowerHost_eq_nil {host : Text} : lowerHost host = [] ↔ host = [] := by
  conv => rhs; rw [← cut_append_cut '%' host]
  rw [lowerHost, List.append_eq_nil_iff, List.append_eq_nil_iff, DataQ.lower, List.map_eq_nil_iff]

/-- `str.lower` is that of the letters where there are no others. -/
def LowersAscii (library : Library) : Prop :=
  ∀ text : Text, text.all (fun c => c.toNat < 128) = true → library.lower text = DataQ.lower text

theorem hostname_eq {library : Library} (hlower : LowersAscii library) {parts : SplitResult}
    (hascii : parts.hostinfo.1.all (fun c => c.toNat < 128) = true) :
    parts.hostname library =
      if parts.hostinfo.1 = [] then none else some (lowerHost parts.hostinfo.1) := by
  rw [SplitResult.hostname]
  split
  · next hnil => rw [if_pos hnil]
  · next hne =>
    rw [if_neg (fun hnil => hne hnil)]
    have hfirst : (cut '%' parts.hostinfo.1).1.all (fun c => c.toNat < 128) = true := by
      rw [← cut_append_cut '%' parts.hostinfo.1, List.all_append, Bool.and_eq_true] at hascii
      exact hascii.1
    rw [hlower _ hfirst]
    rfl

end DataQ.Urls

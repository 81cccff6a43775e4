import DataQ.Connections.UriCredentials

/-! # Whether an injected password comes back

The URI with the password is put together of what the parsed parts say: a host in brackets loses
them, a port of 0 is lost, and a name that is escaped is escaped again. Where there is none of these,
the client reads what was there and the password, and stripping gives back a URI that reads as
before. -/

namespace DataQ.Connections
open DataQ.Percent DataQ.Urls
set_option autoImplicit false

/-- An ASCII character that ends no part of a network location and is not dropped. -/
def plain (c : Char) : Bool :=
  c.toNat < 128 && c ∉ ['@', '/', '?', '#', '[', ']', '\t', '\r', '\n']

theorem lt_of_isAlphanum {c : Char} (h : c.isAlphanum = true) : c.toNat < 128 := by
  simp only [Char.isAlphanum, isAlpha_eq, isUpper_iff, isLower_iff, Char.isDigit,
    Bool.or_eq_true, Bool.and_eq_true, decide_eq_true_eq, ge_iff_le, UInt32.le_iff_toNat_le] at h
  have hz : 'z'.val.toNat = 122 := rfl
  have hZ : 'Z'.val.toNat = 90 := rfl
  have h9 : '9'.val.toNat = 57 := rfl
  have hc : c.toNat = c.val.toNat := rfl
  omega

theorem lt_of_nameChar {c : Char} (h : nameChar c = true) : c.toNat < 128 := by
  simp only [nameChar, unreserved, subDelim, Bool.or_eq_true, decide_eq_true_eq] at h
  obtain ((halnum | hmark) | hdelim) | rfl := h
  · exact lt_of_isAlphanum halnum
  · have hall : ['-', '.', '_', '~'].all (fun c => c.toNat < 128) = true := by decide
    exact of_decide_eq_true (List.all_eq_true.mp hall c hmark)
  · have hall : ("!$&'()*+,;=".toList).all (fun c => c.toNat < 128) = true := by decide
    exact of_decide_eq_true (List.all_eq_true.mp hall c hdelim)
  · decide

theorem plain_iff {c : Char} : plain c = true ↔
    c.toNat < 128 ∧ ∀ d ∈ ['@', '/', '?', '#', '[', ']', '\t', '\r', '\n'], c ≠ d := by
  rw [plain, Bool.and_eq_true, decide_eq_true_eq, decide_eq_true_eq]
  exact and_congr_right fun _ => ⟨fun hout d hd heq => hout (heq ▸ hd), fun hout hin => hout c hin rfl⟩

theorem plain_of_nameChar {c : Char} (h : nameChar c = true) : plain c = true ∧ c ≠ ':' := by
  have hout : [':', '@', '/', '?', '#', '[', ']', '\t', '\r', '\n'].all (!nameChar ·) = true := by
    decide
  have hnot {d : Char} (hd : d ∈ [':', '@', '/', '?', '#', '[', ']', '\t', '\r', '\n']) :
      c ≠ d := by
    rintro rfl
    have hnot := List.all_eq_true.mp hout c hd
    rw [h] at hnot
    cases hnot
  exact ⟨plain_iff.mpr ⟨lt_of_nameChar h, fun d hd => hnot (List.mem_cons_of_mem _ hd)⟩,
    hnot List.mem_cons_self⟩

theorem plain_toLower {c : Char} (h : plain c = true) : plain c.toLower = true := by
  obtain ⟨hlt, hout⟩ := plain_iff.mp h
  have hletter : ['@', '/', '?', '#', '[', ']', '\t', '\r', '\n'].all (!Char.isAlpha ·) = true := by
    decide
  refine plain_iff.mpr ⟨toNat_toLower_lt hlt, fun d hd heq => hout d hd ?_⟩
  have hno := List.all_eq_true.mp hletter d hd
  rw [Bool.not_eq_true'] at hno
  exact (toLower_eq_iff hno).mp heq

theorem plain_of_isDigit {c : Char} (h : c.isDigit = true) : plain c = true ∧ c ≠ ':' := by
  apply plain_of_nameChar
  rw [nameChar, unreserved, Char.isAlphanum, h]
  simp

theorem plain_of_quoted {text : Text} {c : Char} (h : c ∈ quote text) :
    plain c = true ∧ c ≠ ':' := by
  apply plain_of_nameChar
  obtain hsafe | rfl := mem_quote h
  · have hall : alwaysSafe.all nameChar = true := by decide
    exact List.all_eq_true.mp hall c hsafe
  · decide

/-! ## What is split -/

variable {library : Library} {uri : Uri}

def Uri.parts (uri : Uri) : SplitResult :=
  ⟨DataQ.lower uri.scheme, uri.netloc, uri.path, uri.query.getD [], uri.fragment.getD []⟩

/-- The characters of a network location, where no part of the URI ends. -/
def located (c : Char) : Bool := plain c || c ∈ [':', '@']

theorem located_spec {c : Char} (h : located c = true) :
    c.toNat < 128 ∧ endsNetloc c = false ∧ dropped c = false ∧ c ≠ '[' ∧ c ≠ ']' := by
  rw [located, Bool.or_eq_true, decide_eq_true_eq] at h
  obtain hplain | hmark := h
  · obtain ⟨hlt, hout⟩ := plain_iff.mp hplain
    simp only [List.mem_cons, List.not_mem_nil, or_false, forall_eq_or_imp, forall_eq] at hout
    obtain ⟨-, hslash, hquestion, hhash, hopen, hclose, htab, hreturn, hnewline⟩ := hout
    refine ⟨hlt, ?_, ?_, hopen, hclose⟩
    · simp [endsNetloc, hslash, hquestion, hhash]
    · simp [dropped, htab, hreturn, hnewline]
  · simp only [List.mem_cons, List.not_mem_nil, or_false] at hmark
    obtain rfl | rfl := hmark <;> decide

theorem not_dropped_of_queryChar {c : Char} (h : queryChar c = true) :
    dropped c = false ∧ c ≠ '#' := by
  have hout : ['\t', '\r', '\n', '#'].all (!queryChar ·) = true := by decide
  have hnot {d : Char} (hd : d ∈ ['\t', '\r', '\n', '#']) : c ≠ d := by
    rintro rfl
    have hno := List.all_eq_true.mp hout c hd
    rw [h] at hno
    cases hno
  refine ⟨?_, hnot (by decide)⟩
  simp [dropped, hnot (d := '\t') (by decide), hnot (d := '\r') (by decide),
    hnot (d := '\n') (by decide)]

theorem queryChar_of_pathChar {c : Char} (h : pathChar c = true) :
    queryChar c = true ∧ c ≠ '?' := by
  refine ⟨by rw [queryChar, h, Bool.true_or], ?_⟩
  rintro rfl
  revert h
  decide

theorem not_dropped_of_schemeChar {c : Char} (h : schemeChar c = true) : dropped c = false := by
  have hout : ['\t', '\r', '\n'].all (!schemeChar ·) = true := by decide
  rw [dropped, decide_eq_false_iff_not]
  intro hmem
  have hno := List.all_eq_true.mp hout c hmem
  rw [h] at hno
  cases hno

theorem WellFormed.scheme_all (hw : WellFormed library uri) : uri.scheme.all schemeChar = true := by
  obtain ⟨c, rest, hscheme, halpha, hrest⟩ := hw.scheme
  rw [hscheme, List.all_cons, hrest, schemeChar, Char.isAlphanum, halpha]
  rfl

theorem isAlpha_toLower {c : Char} (h : c.isAlpha = true) : c.toLower.isAlpha = true := by
  obtain hsame | ⟨-, hlower, -⟩ := toLower_cases c
  · rwa [hsame]
  · rw [isAlpha_eq, hlower, Bool.or_true]

theorem schemeChar_toLower {c : Char} (h : schemeChar c = true) : schemeChar c.toLower = true := by
  obtain hsame | ⟨-, hlower, -⟩ := toLower_cases c
  · rwa [hsame]
  · rw [schemeChar, Char.isAlphanum, isAlpha_eq, hlower]
    simp

/-- The parts of a well-formed URI stand in their places, with any network location that does. -/
theorem WellFormed.inPlace (hw : WellFormed library uri) {scheme netloc : Text}
    {query fragment : Option Text} (hscheme : scheme = uri.scheme ∨ scheme = DataQ.lower uri.scheme)
    (hnetloc : ∀ c ∈ netloc, endsNetloc c = false ∧ dropped c = false)
    (hquery : ∀ q, query = some q → uri.query = some q)
    (hfragment : ∀ f, fragment = some f → uri.fragment = some f)
    (haccepted : netlocAccepted library netloc = true) :
    InPlace library scheme netloc uri.path query fragment := by
  obtain ⟨c, rest, hfirst, halpha, -⟩ := hw.scheme
  have hall : scheme.all schemeChar = true := by
    obtain rfl | rfl := hscheme
    · exact hw.scheme_all
    · rw [List.all_eq_true, DataQ.lower]
      intro d hd
      obtain ⟨e, he, rfl⟩ := List.mem_map.mp hd
      exact schemeChar_toLower (List.all_eq_true.mp hw.scheme_all e he)
  have hpath (c : Char) (hc : c ∈ uri.path) : (dropped c = false ∧ c ≠ '#') ∧ c ≠ '?' := by
    obtain ⟨hchar, hne⟩ := queryChar_of_pathChar (List.all_eq_true.mp hw.path.2 c hc)
    exact ⟨not_dropped_of_queryChar hchar, hne⟩
  have hqueries (q : Text) (hq : query = some q) (c : Char) (hc : c ∈ q) :
      dropped c = false ∧ c ≠ '#' :=
    not_dropped_of_queryChar (List.all_eq_true.mp (hw.query q (hquery q hq)) c hc)
  have hfragments (f : Text) (hf : fragment = some f) (c : Char) (hc : c ∈ f) :
      dropped c = false ∧ c ≠ '#' :=
    not_dropped_of_queryChar (List.all_eq_true.mp (hw.fragment f (hfragment f hf)) c hc)
  refine ⟨?_, hall, fun c hc => (hnetloc c hc).1, hw.path.1, ⟨?_, ?_⟩, ?_, ?_, haccepted⟩
  · obtain rfl | rfl := hscheme
    · exact ⟨c, rest, hfirst, halpha⟩
    · exact ⟨c.toLower, DataQ.lower rest, by rw [hfirst]; rfl, isAlpha_toLower halpha⟩
  · exact fun hmem => (hpath '#' hmem).1.2 rfl
  · exact fun hmem => (hpath '?' hmem).2 rfl
  · exact fun q hq hmem => (hqueries q hq '#' hmem).2 rfl
  · intro c hc
    simp only [render, List.mem_append, List.mem_cons] at hc
    obtain hscheme | rfl | rfl | rfl | hnet | hin | hqueried | hfragmented := hc
    · exact not_dropped_of_schemeChar (List.all_eq_true.mp hall c hscheme)
    · decide
    · decide
    · decide
    · exact (hnetloc c hnet).2
    · exact (hpath c hin).1.1
    · cases query with
      | none => cases hqueried
      | some q =>
        obtain rfl | hq := List.mem_cons.mp hqueried
        · decide
        · exact (hqueries q rfl c hq).1
    · cases fragment with
      | none => cases hfragmented
      | some f =>
        obtain rfl | hf := List.mem_cons.mp hfragmented
        · decide
        · exact (hfragments f rfl c hf).1

/-- A network location without brackets is accepted. -/
theorem accepted_of_located {netloc : Text} (h : ∀ c ∈ netloc, located c = true) :
    netlocAccepted library netloc = true := by
  have hopen : netloc.contains '[' = false := by
    rw [List.contains_eq_mem, decide_eq_false_iff_not]
    exact fun hmem => (located_spec (h '[' hmem)).2.2.2.1 rfl
  have hclose : netloc.contains ']' = false := by
    rw [List.contains_eq_mem, decide_eq_false_iff_not]
    exact fun hmem => (located_spec (h ']' hmem)).2.2.2.2 rfl
  have hascii : netloc.all (fun c => c.toNat < 128) = true := by
    rw [List.all_eq_true]
    exact fun c hc => decide_eq_true (located_spec (h c hc)).1
  simp only [netlocAccepted, hopen, hclose, checkNetloc, hascii]
  rfl

/-- What is put together with another network location is split into it again. -/
theorem WellFormed.resplit (hw : WellFormed library uri) {netloc : Text} (hne : netloc ≠ [])
    (h : ∀ c ∈ netloc, located c = true) :
    urlsplit library (urlunsplit { uri.parts with netloc := netloc }) =
      some { uri.parts with netloc := netloc } := by
  have hscheme : uri.parts.scheme ≠ [] := by
    obtain ⟨c, rest, hfirst, -⟩ := hw.scheme
    rw [Uri.parts, hfirst]
    nofun
  have hoption (o : Option Text) : ∀ q, (if o.getD [] = [] then none else some (o.getD [])) =
      some q → o = some q := by
    intro q hq
    split at hq
    · cases hq
    · obtain rfl := Option.some.inj hq
      cases o with
      | none => next hne => exact absurd rfl hne
      | some q => rfl
  have hin := hw.inPlace (.inr rfl) (fun c hc => ⟨(located_spec (h c hc)).2.1,
    (located_spec (h c hc)).2.2.1⟩) (hoption uri.query) (hoption uri.fragment)
    (accepted_of_located h)
  rw [@urlunsplit_eq { uri.parts with netloc := netloc } hscheme hne hw.path.1]
  refine (urlsplit_render hin).trans ?_
  have hgetD (q : Text) : (if q = [] then none else some q).getD [] = q := by
    split
    · next hnil => rw [hnil]; rfl
    · rfl
  simp only [Uri.parts, lower_lower, hgetD]

/-! ## The location -/

theorem WellFormed.inner_plain (hw : WellFormed library uri) {c : Char} (hc : c ∈ uri.host.inner) :
    plain c = true := by
  have hhost := hw.host
  cases hkind : uri.host with
  | name text =>
    rw [hkind] at hhost hc
    exact (plain_of_nameChar (List.all_eq_true.mp hhost.1 c hc)).1
  | literal text =>
    rw [hkind] at hhost hc
    have hchar := List.all_eq_true.mp hhost.1 c hc
    rw [Bool.or_eq_true, decide_eq_true_eq] at hchar
    obtain hname | rfl := hchar
    · exact (plain_of_nameChar hname).1
    · decide

theorem plain_ne {c d : Char} (h : plain c = true)
    (hd : d ∈ ['@', '/', '?', '#', '[', ']', '\t', '\r', '\n']) : c ≠ d :=
  (plain_iff.mp h).2 d hd

theorem WellFormed.digits_plain (hw : WellFormed library uri) {c : Char}
    (hc : c ∈ portText uri.port) : located c = true := by
  cases hport : uri.port with
  | none =>
    rw [hport] at hc
    cases hc
  | some port =>
    rw [hport] at hc
    obtain rfl | hdigit := List.mem_cons.mp hc
    · decide
    · rw [located, (plain_of_isDigit (List.all_eq_true.mp (hw.port port hport).1 c hdigit)).1,
        Bool.true_or]

theorem WellFormed.locate_location (hw : WellFormed library uri) :
    locate uri.location = (uri.host.inner, uri.port.filter (· ≠ [])) := by
  have hhost := hw.host
  have hinner {c : Char} (hc : c ∈ uri.host.inner) := hw.inner_plain hc
  rw [Uri.location]
  cases hkind : uri.host with
  | name text =>
    rw [hkind] at hhost hinner
    apply locate_name
    · rw [List.mem_append, not_or]
      refine ⟨fun hmem => plain_ne (hinner hmem) (by decide) rfl, fun hmem => ?_⟩
      exact (located_spec (hw.digits_plain hmem)).2.2.2.1 rfl
    · exact fun hmem => (plain_of_nameChar (List.all_eq_true.mp hhost.1 ':' hmem)).2 rfl
  | literal text =>
    rw [hkind] at hinner
    have hshape : (Host.literal text).text ++ (uri.port.map (':' :: ·)).getD [] =
        '[' :: (text ++ ']' :: portText uri.port) := by
      simp [Host.text, portText]
    rw [hshape]
    exact locate_literal fun hmem => plain_ne (hinner hmem) (by decide) rfl

theorem WellFormed.at_not_mem_location (hw : WellFormed library uri) : '@' ∉ uri.location := by
  have hport : '@' ∉ portText uri.port := by
    intro hmem
    cases hvalue : uri.port with
    | none =>
      rw [hvalue] at hmem
      cases hmem
    | some port =>
      rw [hvalue] at hmem
      have hdigit := (List.mem_cons.mp hmem).resolve_left (by decide)
      have hplain := plain_of_isDigit (List.all_eq_true.mp (hw.port port hvalue).1 '@' hdigit)
      exact plain_ne hplain.1 (by decide) rfl
  have hinner {c : Char} (hc : c ∈ uri.host.inner) := hw.inner_plain hc
  rw [Uri.location, List.mem_append, not_or]
  refine ⟨?_, hport⟩
  cases hkind : uri.host with
  | name text =>
    rw [hkind] at hinner
    exact fun hmem => plain_ne (hinner hmem) (by decide) rfl
  | literal text =>
    rw [hkind] at hinner
    intro hmem
    simp only [Host.text, List.mem_cons, List.mem_append, List.not_mem_nil, or_false] at hmem
    obtain hopen | hin | hclose := hmem
    · exact absurd hopen (by decide)
    · exact plain_ne (hinner hin) (by decide) rfl
    · exact absurd hclose (by decide)

theorem WellFormed.user_plain (hw : WellFormed library uri) {c : Char} (hc : c ∈ uri.user) :
    plain c = true ∧ c ≠ ':' := plain_of_nameChar (List.all_eq_true.mp hw.user.2.1 c hc)

theorem located_of_plain {c : Char} (h : plain c = true) : located c = true := by
  rw [located, h, Bool.true_or]

theorem WellFormed.mem_netloc (hw : WellFormed library uri) {c : Char} (hc : c ∈ uri.netloc) :
    located c = true ∨ (∃ text, uri.host = .literal text) ∧ (c = '[' ∨ c = ']') := by
  rw [Uri.netloc, List.mem_append, List.mem_cons, Uri.location, List.mem_append] at hc
  have hinner {c : Char} (hc : c ∈ uri.host.inner) := located_of_plain (hw.inner_plain hc)
  obtain huser | rfl | hhost | hport := hc
  · exact .inl (located_of_plain (hw.user_plain huser).1)
  · exact .inl (by decide)
  · cases hkind : uri.host with
    | name text =>
      rw [hkind] at hhost hinner
      exact .inl (hinner hhost)
    | literal text =>
      rw [hkind] at hhost hinner
      simp only [Host.text, List.mem_cons, List.mem_append, List.not_mem_nil, or_false] at hhost
      obtain hopen | hin | hclose := hhost
      · exact .inr ⟨⟨text, rfl⟩, .inl hopen⟩
      · exact .inl (hinner hin)
      · exact .inr ⟨⟨text, rfl⟩, .inr hclose⟩
  · exact .inl (hw.digits_plain hport)

theorem bracket_spec {c : Char} (h : c = '[' ∨ c = ']') :
    c.toNat < 128 ∧ endsNetloc c = false ∧ dropped c = false := by
  obtain rfl | rfl := h <;> decide

theorem WellFormed.cutLast_netloc (hw : WellFormed library uri) :
    cutLast '@' uri.netloc = (some uri.user, uri.location) :=
  cutLast_append hw.at_not_mem_location uri.user

theorem WellFormed.accepted (hw : WellFormed library uri) :
    netlocAccepted library uri.netloc = true := by
  cases hkind : uri.host with
  | name text =>
    apply accepted_of_located
    intro c hc
    obtain hlocated | ⟨⟨text, hliteral⟩, -⟩ := hw.mem_netloc hc
    · exact hlocated
    · rw [hkind] at hliteral
      cases hliteral
  | literal text =>
    have hhost := hw.host
    have hinner {c : Char} (hc : c ∈ uri.host.inner) := hw.inner_plain hc
    rw [hkind] at hhost hinner
    have hlocation : uri.location = '[' :: (text ++ ']' :: portText uri.port) := by
      simp [Uri.location, hkind, Host.text, portText]
    have hopen : uri.netloc.contains '[' = true := by
      rw [List.contains_iff_mem, Uri.netloc, hlocation]
      simp
    have hclose : uri.netloc.contains ']' = true := by
      rw [List.contains_iff_mem, Uri.netloc, hlocation]
      simp
    have hascii : uri.netloc.all (fun c => c.toNat < 128) = true := by
      rw [List.all_eq_true]
      intro c hc
      obtain hlocated | ⟨-, hbracket⟩ := hw.mem_netloc hc
      · exact decide_eq_true (located_spec hlocated).1
      · exact decide_eq_true (bracket_spec hbracket).1
    have hcut : cut '[' uri.location = ([], some (text ++ ']' :: portText uri.port)) := by
      rw [hlocation, cut, if_pos rfl]
    have hclosed : cut ']' (text ++ ']' :: portText uri.port) = (text, some (portText uri.port)) :=
      cut_append (fun hmem => plain_ne (hinner hmem) (by decide) rfl) _
    have hhead : ((portText uri.port).head?.all fun c => c = ':') = true := by
      cases uri.port <;> rfl
    have hchecked : checkBracketedNetloc library uri.netloc = true := by
      simp only [checkBracketedNetloc, hw.cutLast_netloc, hcut, hclosed, Option.getD_some, hhead,
        hhost.2, decide_true, Bool.and_self]
    simp only [netlocAccepted, hopen, hclose, hchecked, checkNetloc, hascii]
    rfl

theorem WellFormed.urlsplit_text (hw : WellFormed library uri) :
    urlsplit library uri.text = some uri.parts := by
  refine urlsplit_render (hw.inPlace (.inl rfl) ?_ (fun _ => id) (fun _ => id) hw.accepted)
  intro c hc
  obtain hlocated | ⟨-, hbracket⟩ := hw.mem_netloc hc
  · exact ⟨(located_spec hlocated).2.1, (located_spec hlocated).2.2.1⟩
  · exact (bracket_spec hbracket).2

/-! ## What the parts say -/

theorem filter_of_ne_nil {text : Text} (h : text ≠ []) :
    (some text).filter (· ≠ []) = some text := by
  rw [Option.filter_some, if_pos (decide_eq_true h)]

/-- The user's name and the password before a location. -/
theorem userinfo_of {parts : SplitResult} {front location : Text}
    (hnetloc : parts.netloc = front ++ '@' :: location) (hlocation : '@' ∉ location) :
    parts.username = some (cut ':' front).1 ∧ parts.password = (cut ':' front).2 ∧
      parts.hostinfo = locate location := by
  have hcut : cutLast '@' parts.netloc = (some front, location) := by
    rw [hnetloc, cutLast_append hlocation]
  simp only [SplitResult.username, SplitResult.password, SplitResult.hostinfo, hcut,
    Option.map_some, Option.bind_some, and_self]

theorem WellFormed.userinfo (hw : WellFormed library uri) :
    usernameOf uri.parts = some uri.user ∧ passwordOf uri.parts = none ∧
      uri.parts.hostinfo = (uri.host.inner, uri.port.filter (· ≠ [])) := by
  obtain ⟨husername, hpassword, hhostinfo⟩ :=
    @userinfo_of uri.parts uri.user uri.location rfl hw.at_not_mem_location
  have hcolon : cut ':' uri.user = (uri.user, none) :=
    cut_of_not_mem fun hmem => (hw.user_plain hmem).2 rfl
  rw [hcolon] at husername hpassword
  rw [hw.locate_location] at hhostinfo
  refine ⟨?_, ?_, hhostinfo⟩
  · rw [usernameOf, husername]
    exact filter_of_ne_nil hw.user.1
  · rw [passwordOf, hpassword]
    rfl

theorem WellFormed.port_eq (hw : WellFormed library uri) :
    uri.parts.port = some uri.portNumber := by
  rw [SplitResult.port, hw.userinfo.2.2, Uri.portNumber]
  cases hport : uri.port.filter (· ≠ []) with
  | none => rfl
  | some port =>
    have hvalue := hw.port port (Option.filter_eq_some_iff.mp hport).1
    simp only [hvalue.1, hvalue.2, decide_true, Bool.and_self, if_true, Option.map_some]

theorem WellFormed.hostname_eq (hw : WellFormed library uri) (hlower : LowersAscii library) :
    uri.parts.hostname library =
      if uri.host.inner = [] then none else some (lowerHost uri.host.inner) := by
  have hinner : uri.parts.hostinfo.1 = uri.host.inner := by rw [hw.userinfo.2.2]
  have hascii : uri.parts.hostinfo.1.all (fun c => c.toNat < 128) = true := by
    rw [hinner, List.all_eq_true]
    exact fun c hc => decide_eq_true (plain_iff.mp (hw.inner_plain hc)).1
  rw [Urls.hostname_eq hlower hascii, hinner]

/-- What a client reads of the URI. -/
def Uri.decoded (uri : Uri) : Decoded where
  scheme := DataQ.lower uri.scheme
  user := some (unquoteToBytes uri.user)
  password := none
  host := if uri.host.inner = [] then none else some (lowerHost uri.host.inner)
  port := uri.portNumber
  path := uri.path
  query := uri.query.getD []

theorem WellFormed.decode_text (hw : WellFormed library uri) (hlower : LowersAscii library) :
    decode library uri.text = some uri.decoded := by
  rw [decode, hw.urlsplit_text, Option.bind_some, decodeParts, hw.port_eq, Option.map_some,
    hw.hostname_eq hlower, hw.userinfo.1, hw.userinfo.2.1]
  rfl

/-! ## The location put together again -/

/-- The port as it is written again: 0 is not. -/
def rewritten : Option ℕ → Option ℕ
  | some 0 => none
  | port => port

/-- The host and the port as they are written again, without the brackets. -/
def Uri.relocation (uri : Uri) : Text :=
  lowerHost uri.host.inner ++ portText ((rewritten uri.portNumber).map (Nat.toDigits 10))

theorem written (host : Text) (port : Option ℕ) :
    (match port with
      | none | some 0 => host
      | some port => host ++ ':' :: Nat.toDigits 10 port) =
      host ++ portText ((rewritten port).map (Nat.toDigits 10)) := by
  match port with
  | none => exact (List.append_nil host).symm
  | some 0 => exact (List.append_nil host).symm
  | some (port + 1) => rfl

theorem hostAndPort_eq {parts : SplitResult} (hhost : parts.hostname library = uri.decoded.host)
    (hport : parts.port = some uri.portNumber) :
    hostAndPort library parts = some uri.relocation := by
  have hinner : (parts.hostname library).getD [] = lowerHost uri.host.inner := by
    rw [hhost, Uri.decoded]
    split
    · next hnil => rw [hnil]; rfl
    · rfl
  rw [hostAndPort, hport, Option.map_some, hinner]
  exact congrArg some (written _ _)

theorem WellFormed.relocation_plain (hw : WellFormed library uri) {c : Char}
    (hc : c ∈ uri.relocation) : plain c = true := by
  rw [Uri.relocation, List.mem_append] at hc
  obtain hhost | hport := hc
  · obtain ⟨d, hd, rfl | rfl⟩ := exists_of_mem_lowerHost hhost
    · exact hw.inner_plain hd
    · exact plain_toLower (hw.inner_plain hd)
  · cases hvalue : rewritten uri.portNumber with
    | none =>
      rw [hvalue] at hport
      cases hport
    | some port =>
      rw [hvalue] at hport
      obtain rfl | hdigit := List.mem_cons.mp hport
      · decide
      · exact (plain_of_isDigit (Nat.isDigit_of_mem_toDigits (by decide) (by decide) hdigit)).1

theorem WellFormed.at_not_mem_relocation (hw : WellFormed library uri) : '@' ∉ uri.relocation :=
  fun hmem => plain_ne (hw.relocation_plain hmem) (by decide) rfl

theorem WellFormed.portNumber_le (hw : WellFormed library uri) {port : ℕ}
    (h : uri.portNumber = some port) : port ≤ 65535 := by
  obtain ⟨text, htext, rfl⟩ := Option.map_eq_some_iff.mp h
  exact (hw.port text (Option.filter_eq_some_iff.mp htext).1).2

/-- Where there is no colon in the host, the location says what the original one said but for a port
of 0. -/
theorem WellFormed.relocated (hw : WellFormed library uri) (hlower : LowersAscii library)
    (hcolon : ':' ∉ uri.host.inner) {parts : SplitResult}
    (hhostinfo : parts.hostinfo = locate uri.relocation) :
    parts.hostname library = uri.decoded.host ∧ parts.port = some (rewritten uri.portNumber) := by
  have hnocolon : ':' ∉ lowerHost uri.host.inner := by rwa [mem_lowerHost (by decide)]
  have hbracket : '[' ∉ uri.relocation := fun hmem =>
    plain_ne (hw.relocation_plain hmem) (by decide) rfl
  have hfilter : ((rewritten uri.portNumber).map (Nat.toDigits 10)).filter (· ≠ []) =
      (rewritten uri.portNumber).map (Nat.toDigits 10) := by
    cases rewritten uri.portNumber with
    | none => rfl
    | some port => exact filter_of_ne_nil Nat.toDigits_ne_nil
  have hlocate : parts.hostinfo = (lowerHost uri.host.inner,
      (rewritten uri.portNumber).map (Nat.toDigits 10)) := by
    rw [hhostinfo, Uri.relocation, locate_name hbracket hnocolon, hfilter]
  constructor
  · have hascii : parts.hostinfo.1.all (fun c => c.toNat < 128) = true := by
      rw [hlocate, List.all_eq_true]
      exact fun c hc => decide_eq_true
        (plain_iff.mp (hw.relocation_plain (List.mem_append_left _ hc))).1
    rw [Urls.hostname_eq hlower hascii, hlocate, lowerHost_lowerHost, Uri.decoded]
    simp only [lowerHost_eq_nil]
  · rw [SplitResult.port, hlocate]
    cases hport : rewritten uri.portNumber with
    | none => rfl
    | some port =>
      have hnumber : uri.portNumber = some port := by
        unfold rewritten at hport
        split at hport
        · cases hport
        · exact hport
      have hdigits : (Nat.toDigits 10 port).all Char.isDigit = true := by
        rw [List.all_eq_true]
        exact fun c hc => Nat.isDigit_of_mem_toDigits (by decide) (by decide) hc
      simp only [Option.map_some, hdigits, Nat.ofDigitChars_ten_toDigits,
        hw.portNumber_le hnumber, decide_true, Bool.and_self, if_true]

/-- Where there is one, the host ends at it. -/
theorem WellFormed.dislocated (hw : WellFormed library uri) (hlower : LowersAscii library)
    (hcolon : ':' ∈ uri.host.inner) {parts : SplitResult}
    (hhostinfo : parts.hostinfo = locate uri.relocation) :
    parts.hostname library ≠ uri.decoded.host := by
  have hmem : ':' ∈ lowerHost uri.host.inner := by rwa [mem_lowerHost (by decide)]
  have hbracket : '[' ∉ uri.relocation := fun hmem =>
    plain_ne (hw.relocation_plain hmem) (by decide) rfl
  have hfirst : parts.hostinfo.1 = (cut ':' (lowerHost uri.host.inner)).1 := by
    rw [hhostinfo, Uri.relocation]
    exact locate_of_colon hbracket hmem
  have hascii : parts.hostinfo.1.all (fun c => c.toNat < 128) = true := by
    rw [hfirst, List.all_eq_true]
    intro c hc
    have hin : c ∈ lowerHost uri.host.inner := by
      rw [← cut_append_cut ':' (lowerHost uri.host.inner)]
      exact List.mem_append_left _ hc
    exact decide_eq_true (plain_iff.mp (hw.relocation_plain (List.mem_append_left _ hin))).1
  have hne : uri.host.inner ≠ [] := List.ne_nil_of_mem hcolon
  rw [Urls.hostname_eq hlower hascii, Uri.decoded]
  simp only [if_neg hne]
  split
  · nofun
  · intro heq
    have hsame := Option.some.inj heq
    rw [← hsame, mem_lowerHost (by decide), hfirst] at hmem
    exact not_mem_cut ':' _ hmem

/-! ## The round trip -/

/-- The client of the URI with the password reads that and what was there, and without the password
again what was there. -/
def RoundTrips (library : Library) (uri password : Text) : Prop :=
  ∃ decoded injected stripped, decode library uri = some decoded ∧
    injectUriPassword library uri password = some injected ∧
    decode library injected = some { decoded with password := some (utf8 password) } ∧
    stripUriCredentials library injected = some stripped ∧
    decode library stripped = some decoded

variable {password : Text}

/-- The parts of the URI with the password. -/
def Uri.injected (uri : Uri) (password : Text) : SplitResult :=
  { uri.parts with netloc := quote uri.user ++ ':' :: (quote password ++ '@' :: uri.relocation) }

/-- The parts of that URI without it. -/
def Uri.stripped (uri : Uri) : SplitResult :=
  { uri.parts with netloc := quote uri.user ++ '@' :: uri.relocation }

theorem colon_not_mem_quote (text : Text) : ':' ∉ quote text := fun hmem =>
  (plain_of_quoted hmem).2 rfl

theorem located_of_quoted {text : Text} {c : Char} (hc : c ∈ quote text) : located c = true :=
  located_of_plain (plain_of_quoted hc).1

theorem WellFormed.injected_located (hw : WellFormed library uri) (c : Char)
    (hc : c ∈ (uri.injected password).netloc) : located c = true := by
  simp only [Uri.injected, List.mem_append, List.mem_cons] at hc
  obtain huser | rfl | hpassword | rfl | hlocation := hc
  · exact located_of_quoted huser
  · decide
  · exact located_of_quoted hpassword
  · decide
  · exact located_of_plain (hw.relocation_plain hlocation)

theorem WellFormed.stripped_located (hw : WellFormed library uri) (c : Char)
    (hc : c ∈ uri.stripped.netloc) : located c = true := by
  simp only [Uri.stripped, List.mem_append, List.mem_cons] at hc
  obtain huser | rfl | hlocation := hc
  · exact located_of_quoted huser
  · decide
  · exact located_of_plain (hw.relocation_plain hlocation)

theorem WellFormed.inject_eq (hw : WellFormed library uri) (hlower : LowersAscii library) :
    injectUriPassword library uri.text password = some (urlunsplit (uri.injected password)) := by
  have hlocation := hostAndPort_eq (hw.hostname_eq hlower) hw.port_eq
  rw [injectUriPassword, hw.urlsplit_text]
  simp only [hw.userinfo.1, hw.userinfo.2.1, hlocation, Option.map_some]
  rfl

theorem WellFormed.urlsplit_injected (hw : WellFormed library uri) :
    urlsplit library (urlunsplit (uri.injected password)) = some (uri.injected password) :=
  hw.resplit (by simp) hw.injected_located

theorem WellFormed.urlsplit_stripped (hw : WellFormed library uri) :
    urlsplit library (urlunsplit uri.stripped) = some uri.stripped :=
  hw.resplit (by simp) hw.stripped_located

theorem WellFormed.injected_userinfo (hw : WellFormed library uri) (hpassword : password ≠ []) :
    usernameOf (uri.injected password) = some (quote uri.user) ∧
      passwordOf (uri.injected password) = some (quote password) ∧
        (uri.injected password).hostinfo = locate uri.relocation := by
  have hnetloc : (uri.injected password).netloc =
      (quote uri.user ++ ':' :: quote password) ++ '@' :: uri.relocation := by
    simp [Uri.injected]
  obtain ⟨husername, hpass, hhostinfo⟩ := userinfo_of hnetloc hw.at_not_mem_relocation
  rw [cut_append (colon_not_mem_quote uri.user)] at husername hpass
  refine ⟨?_, ?_, hhostinfo⟩
  · rw [usernameOf, husername]
    exact filter_of_ne_nil (quote_ne_nil hw.user.1)
  · rw [passwordOf, hpass]
    exact filter_of_ne_nil (quote_ne_nil hpassword)

theorem WellFormed.stripped_userinfo (hw : WellFormed library uri) :
    usernameOf uri.stripped = some (quote uri.user) ∧ passwordOf uri.stripped = none ∧
      uri.stripped.hostinfo = locate uri.relocation := by
  obtain ⟨husername, hpass, hhostinfo⟩ :=
    @userinfo_of uri.stripped (quote uri.user) uri.relocation rfl hw.at_not_mem_relocation
  rw [cut_of_not_mem (colon_not_mem_quote uri.user)] at husername hpass
  refine ⟨?_, ?_, hhostinfo⟩
  · rw [usernameOf, husername]
    exact filter_of_ne_nil (quote_ne_nil hw.user.1)
  · rw [passwordOf, hpass]
    rfl

theorem rewritten_eq_self {port : Option ℕ} : rewritten port = port ↔ port ≠ some 0 := by
  unfold rewritten
  split
  · simp
  · next hne => simp only [true_iff]; exact hne

/-- The password comes back, and the URI without it, where the user's name has no escape, the host is
no IPv6 address and the port is not 0. -/
theorem injected_password_round_trips_iff (hlower : LowersAscii library)
    (hw : WellFormed library uri) (hpassword : password ≠ []) :
    RoundTrips library uri.text password ↔
      '%' ∉ uri.user ∧ ':' ∉ uri.host.inner ∧ uri.portNumber ≠ some 0 := by
  obtain ⟨huser, hpass, hhostinfo⟩ := hw.injected_userinfo hpassword
  constructor
  · rintro ⟨decoded, injected, stripped, hdecoded, hinjected, hread, -, -⟩
    obtain rfl := Option.some.inj ((hw.decode_text hlower).symm.trans hdecoded)
    obtain rfl := Option.some.inj ((hw.inject_eq hlower).symm.trans hinjected)
    rw [decode, hw.urlsplit_injected, Option.bind_some, decodeParts] at hread
    obtain ⟨port, hport, hread⟩ := Option.map_eq_some_iff.mp hread
    rw [huser, hpass, Option.map_some, unquoteToBytes_quote, Decoded.mk.injEq] at hread
    obtain ⟨-, hsame, -, hhost, hnumber, -, -⟩ := hread
    have hcolon : ':' ∉ uri.host.inner := fun hmem => hw.dislocated hlower hmem hhostinfo hhost
    refine ⟨?_, hcolon, ?_⟩
    · exact (unquoteToBytes_eq_iff hw.user.2.2).mp (Option.some.inj hsame).symm
    · have hrewritten := (hw.relocated hlower hcolon hhostinfo).2
      rw [hport, hnumber] at hrewritten
      exact rewritten_eq_self.mp (Option.some.inj hrewritten).symm
  · rintro ⟨hplain, hcolon, hnonzero⟩
    obtain ⟨hhost, hport⟩ := hw.relocated hlower hcolon hhostinfo
    rw [rewritten_eq_self.mpr hnonzero] at hport
    obtain ⟨huser', hpass', hhostinfo'⟩ := hw.stripped_userinfo
    obtain ⟨hhost', hport'⟩ := hw.relocated hlower hcolon hhostinfo'
    rw [rewritten_eq_self.mpr hnonzero] at hport'
    have hbytes : utf8 uri.user = unquoteToBytes uri.user :=
      ((unquoteToBytes_eq_iff hw.user.2.2).mpr hplain).symm
    refine ⟨uri.decoded, urlunsplit (uri.injected password), urlunsplit uri.stripped,
      hw.decode_text hlower, hw.inject_eq hlower, ?_, ?_, ?_⟩
    · rw [decode, hw.urlsplit_injected, Option.bind_some, decodeParts, hport, Option.map_some, huser,
        hpass, hhost, Option.map_some, Option.map_some, unquoteToBytes_quote, unquoteToBytes_quote,
        hbytes]
      rfl
    · have hsome : passwordOf (uri.injected password) ≠ none := by
        rw [hpass]
        nofun
      have hlocation := hostAndPort_eq hhost hport
      rw [stripUriCredentials, hw.urlsplit_injected]
      simp only [if_neg hsome, hlocation, huser, Option.map_some]
      rfl
    · rw [decode, hw.urlsplit_stripped, Option.bind_some, decodeParts, hport', Option.map_some,
        huser', hpass', hhost', Option.map_some, unquoteToBytes_quote, hbytes]
      rfl

def loopback : Library where
  lower := DataQ.lower
  nfkc := id
  ipVersion host := if host = "::1".toList then some 6 else none

def catalogUri (host : Host) : Uri where
  scheme := "postgresql".toList
  user := "user".toList
  host := host
  port := some "5432".toList
  path := "/db".toList
  query := none
  fragment := none

theorem catalogUri_wellFormed {host : Host}
    (hhost : match host with
      | .name text => text.all nameChar = true ∧ wellEscaped text = true
      | .literal text => text.all (fun c => nameChar c || c = ':') = true ∧
          checkBracketedHost loopback text = true) : WellFormed loopback (catalogUri host) where
  scheme := ⟨'p', "ostgresql".toList, rfl, by decide, by decide⟩
  user := ⟨nofun, rfl, rfl⟩
  host := hhost
  port port hport := by
    obtain rfl := Option.some.inj hport
    exact ⟨by decide, by decide⟩
  path := ⟨.inr ⟨"db".toList, rfl⟩, rfl⟩
  query _ h := nomatch h
  fragment _ h := nomatch h

theorem injected_password_round_trips_localhost :
    RoundTrips loopback "postgresql://user@localhost:5432/db".toList "p@ss:w/rd".toList :=
  (@injected_password_round_trips_iff loopback (catalogUri (.name "localhost".toList))
    "p@ss:w/rd".toList (fun _ _ => rfl) (catalogUri_wellFormed ⟨by decide, by decide⟩)
    (by decide)).mpr ⟨by decide, by decide, by decide⟩

/-- The address of a host is left without its brackets, and its port cannot be read. -/
theorem brackets_are_lost :
    WellFormed loopback (catalogUri (.literal "::1".toList)) ∧
      ¬ RoundTrips loopback "postgresql://user@[::1]:5432/db".toList "pw".toList := by
  refine ⟨catalogUri_wellFormed ⟨by decide, by decide⟩, ?_⟩
  rintro ⟨decoded, injected, stripped, -, hinjected, hread, -, -⟩
  have hurl : injectUriPassword loopback "postgresql://user@[::1]:5432/db".toList "pw".toList =
      some "postgresql://user:pw@::1:5432/db".toList := by decide
  obtain rfl := Option.some.inj (hurl.symm.trans hinjected)
  have hnone : decode loopback "postgresql://user:pw@::1:5432/db".toList = none := by decide
  rw [hnone] at hread
  cases hread

end DataQ.Connections

-- Cookies from a response to the next request: `HttpResponse::setCookie`
-- (src/http/HttpResponse.h) writes them, and `HttpRequest::cookies`
-- (src/http/HttpRequest.h) reads them back. The writer has one header for all cookies.
import Mymuduo.HttpResponse

open List bytes

namespace mymuduo.http_request

/-- One piece of the header: spaces in front are dropped, and a piece without an `=`, or of
spaces only, is passed over. -/
def insertPair (result : StringMap) (pair : Bytes) : StringMap :=
  if pair.all (· = 32) then result
  else
    let pair := pair.dropWhile (· = 32)
    match find (text "=") pair with
    | none => result
    | some eq => result.insert (pair.take eq) (pair.drop (eq + 1))

def cookiesFrom (cookieHeader : Bytes) : Nat → Nat → StringMap → StringMap
  | 0, _, result => result
  | fuel + 1, start, result =>
    if start < cookieHeader.length then
      match findFrom (text ";") cookieHeader start with
      | none => insertPair result (cookieHeader.drop start)
      | some semi =>
        cookiesFrom cookieHeader fuel (semi + 1)
          (insertPair result (substr cookieHeader start (semi - start)))
    else result

namespace HttpRequest

/-- Each round of the loop moves `start`, so the length of the header is fuel enough. -/
def cookies (r : HttpRequest) : StringMap :=
  let cookieHeader := r.getHeader (text "cookie")
  if cookieHeader = [] then ∅ else cookiesFrom cookieHeader (cookieHeader.length + 1) 0 ∅

def cookie (r : HttpRequest) (name : Bytes) : Bytes := (r.cookies.lookup name).getD []

end HttpRequest

end mymuduo.http_request

namespace mymuduo.http_cookies

open http_request http_response

/-! ## The reader -/

/-- A cookie as both headers spell it. -/
def pairText (pair : Bytes × Bytes) : Bytes := pair.1 ++ text "=" ++ pair.2

/-- No byte of the text has a meaning of its own in a header of cookies. -/
def PlainText (s : Bytes) : Prop := 61 ∉ s ∧ 59 ∉ s ∧ 32 ∉ s ∧ NoBreak s

instance (s : Bytes) : Decidable (PlainText s) :=
  inferInstanceAs (Decidable (61 ∉ s ∧ 59 ∉ s ∧ 32 ∉ s ∧ NoBreak s))

def insertAll (pairs : List (Bytes × Bytes)) : StringMap :=
  pairs.foldl (fun result pair => result.insert pair.1 pair.2) ∅

theorem insertPair_spaces (result : StringMap) : insertPair result [] = result := rfl

theorem insertPair_cons_space (result : StringMap) (pair : Bytes) :
    insertPair result (32 :: pair) = insertPair result pair := by
  unfold insertPair
  simp

theorem pairText_eq_cons {pair : Bytes × Bytes} (h : PlainText pair.1) :
    ∃ c rest, pairText pair = c :: rest ∧ c ≠ 32 := by
  obtain ⟨name, value⟩ := pair
  obtain ⟨-, -, hspace, -⟩ := h
  cases name with
  | nil => exact ⟨61, value, rfl, by decide⟩
  | cons c name => exact ⟨c, name ++ text "=" ++ value, rfl, fun hc => hspace (by simp [hc])⟩

theorem insertPair_pairText {pair : Bytes × Bytes} (h : PlainText pair.1) (result : StringMap) :
    insertPair result (pairText pair) = result.insert pair.1 pair.2 := by
  obtain ⟨c, rest, hcons, hc⟩ := pairText_eq_cons h
  have hfind : find (text "=") (pairText pair) = some pair.1.length := by
    unfold pairText
    rw [append_assoc]
    exact find_behind h.1 [] pair.2
  have hdrop : (pairText pair).dropWhile (· = 32) = pairText pair := by
    rw [hcons, dropWhile_cons_of_neg (by simpa using hc)]
  have hall : ¬(pairText pair).all (· = 32) = true := by simp [hcons, hc]
  unfold insertPair
  rw [if_neg hall, hdrop]
  dsimp only
  rw [hfind]
  dsimp only
  have hnext : pair.1.length + 1 = (pair.1 ++ text "=").length := by simp [text]
  unfold pairText
  rw [hnext, drop_left, append_assoc, take_left]

theorem cookiesFrom_piece (before : Bytes) {piece : Bytes} (h : 59 ∉ piece) (rest : Bytes)
    (fuel : Nat) (result : StringMap) :
    cookiesFrom (before ++ (piece ++ 59 :: rest)) (fuel + 1) before.length result =
      cookiesFrom ((before ++ piece ++ [59]) ++ rest) fuel (before ++ piece ++ [59]).length
        (insertPair result piece) := by
  have hfind : find (text ";") (piece ++ 59 :: rest) = some piece.length := find_behind h [] rest
  have hnext : piece.length + before.length + 1 = (before ++ piece ++ [59]).length := by
    simp only [length_append, length_singleton]
    omega
  have hwhole : before ++ (piece ++ 59 :: rest) = before ++ piece ++ [59] ++ rest := by simp
  rw [cookiesFrom, if_pos (by simp), findFrom_append, hfind, Option.map_some]
  dsimp only
  rw [Nat.add_sub_cancel, substr_append, hnext, hwhole]

theorem cookiesFrom_last (before : Bytes) {piece : Bytes} (h : 59 ∉ piece) (fuel : Nat)
    (result : StringMap) :
    cookiesFrom (before ++ piece) (fuel + 1) before.length result = insertPair result piece := by
  have hfind : find (text ";") piece = none := find_eq_none_of_notMem h []
  rw [cookiesFrom]
  split
  · rw [findFrom_append, hfind, Option.map_none]
    rw [drop_left]
  · rename_i hend
    have hnil : piece = [] := by
      rw [length_append] at hend
      exact length_eq_zero_iff.mp (by omega)
    rw [hnil, insertPair_spaces]

theorem cookiesFrom_pieces (before : Bytes) {pieces : List Bytes} (h : ∀ piece ∈ pieces, 59 ∉ piece)
    {fuel : Nat} (hfuel : pieces.length ≤ fuel) (result : StringMap) :
    cookiesFrom (before ++ [59].intercalate pieces) fuel before.length result =
      pieces.foldl insertPair result := by
  induction pieces generalizing before fuel result with
  | nil =>
    cases fuel with
    | zero => rfl
    | succ fuel => exact cookiesFrom_last before (by simp) fuel result
  | cons piece pieces ih =>
    obtain ⟨fuel, rfl⟩ := Nat.exists_eq_succ_of_ne_zero (Nat.ne_zero_of_lt hfuel)
    have hpiece := h piece (mem_cons_self ..)
    have hpieces : ∀ p ∈ pieces, 59 ∉ p := fun p hp => h p (mem_cons_of_mem piece hp)
    cases pieces with
    | nil =>
      rw [intercalate_singleton]
      exact cookiesFrom_last before hpiece fuel result
    | cons next pieces =>
      rw [intercalate_cons_cons, append_assoc piece, singleton_append,
        cookiesFrom_piece before hpiece, ih _ hpieces (Nat.le_of_succ_le_succ hfuel)]
      rfl

theorem intercalate_spaces (pair : Bytes) (pairs : List Bytes) :
    (text "; ").intercalate (pair :: pairs) = [59].intercalate (pair :: pairs.map (32 :: ·)) := by
  induction pairs generalizing pair with
  | nil => rfl
  | cons next pairs ih =>
    rw [map_cons, intercalate_cons_cons, intercalate_cons_cons, ih]
    cases pairs <;> simp [text, intercalate_cons_cons]

theorem foldl_insertPair_map_space (pairs : List Bytes) (result : StringMap) :
    (pairs.map (32 :: ·)).foldl insertPair result = pairs.foldl insertPair result := by
  simp only [foldl_map, insertPair_cons_space]

variable {pairs : List (Bytes × Bytes)}

theorem foldl_insertPair_pairText (h : ∀ pair ∈ pairs, PlainText pair.1) (result : StringMap) :
    (pairs.map pairText).foldl insertPair result =
      pairs.foldl (fun result pair => result.insert pair.1 pair.2) result := by
  rw [foldl_map]
  exact foldl_ext _ _ _ fun result pair hpair => insertPair_pairText (h pair hpair) result

theorem notMem_pairText {pair : Bytes × Bytes} (hname : PlainText pair.1)
    (hvalue : PlainText pair.2) : 59 ∉ pairText pair := by
  unfold pairText
  simp only [mem_append, not_or]
  exact ⟨⟨hname.2.1, by decide⟩, hvalue.2.1⟩

theorem notMem_pieces {pair : Bytes × Bytes}
    (h : ∀ p ∈ pair :: pairs, PlainText p.1 ∧ PlainText p.2) :
    ∀ piece ∈ pairText pair :: (pairs.map pairText).map (32 :: ·), 59 ∉ piece := by
  intro piece hpiece
  rw [mem_cons, map_map] at hpiece
  rcases hpiece with rfl | hpiece
  · have hpair := h pair (mem_cons_self ..)
    exact notMem_pairText hpair.1 hpair.2
  · obtain ⟨other, hother, rfl⟩ := mem_map.mp hpiece
    have hplain := h other (mem_cons_of_mem pair hother)
    have hnot := notMem_pairText hplain.1 hplain.2
    simp [hnot]

def cookieLine (pairs : List Bytes) : Bytes :=
  headerLine (text "Cookie", (text "; ").intercalate pairs)

theorem getHeader_cookieLine (q : HttpRequest) (pairs : List Bytes) :
    (q.parseHeader (cookieLine pairs)).getHeader (text "cookie") =
      keptValue ((text "; ").intercalate pairs) := by
  have hlower : lower (text "cookie") = lower (text "Cookie") := by decide
  have hcolon : 58 ∉ text "Cookie" := by decide
  unfold HttpRequest.getHeader HttpRequest.parseHeader cookieLine
  rw [insertHeaderLine_headerLine _ hcolon, insertField, hlower, AList.lookup_insert]
  rfl

theorem cookies_cookieLine (q : HttpRequest)
    (h : ∀ pair ∈ pairs, PlainText pair.1 ∧ PlainText pair.2) :
    (q.parseHeader (cookieLine (pairs.map pairText))).cookies = insertAll pairs := by
  unfold HttpRequest.cookies
  rw [getHeader_cookieLine]
  cases pairs with
  | nil => decide
  | cons pair pairs =>
    obtain ⟨c, rest, hcons, hc⟩ := pairText_eq_cons (h pair (mem_cons_self ..)).1
    have hpieces := notMem_pieces h
    have hjoin : (text "; ").intercalate ((pair :: pairs).map pairText) =
        [59].intercalate (pairText pair :: (pairs.map pairText).map (32 :: ·)) :=
      intercalate_spaces _ _
    have hhead : [59].intercalate (pairText pair :: (pairs.map pairText).map (32 :: ·)) =
        c :: [59].intercalate (rest :: (pairs.map pairText).map (32 :: ·)) := by
      rw [hcons, intercalate_eq_cons]
    have hkept :
        keptValue ([59].intercalate (pairText pair :: (pairs.map pairText).map (32 :: ·))) =
        [59].intercalate (pairText pair :: (pairs.map pairText).map (32 :: ·)) := by
      rw [hhead]
      exact keptValue_of_head hc _
    have hne : [59].intercalate (pairText pair :: (pairs.map pairText).map (32 :: ·)) ≠ [] := by
      rw [hhead]
      exact cons_ne_nil _ _
    have hloop := cookiesFrom_pieces [] hpieces
      (length_le_length_intercalate_succ 59 (pairText pair :: (pairs.map pairText).map (32 :: ·))) ∅
    rw [nil_append, length_nil] at hloop
    rw [hjoin, hkept, if_neg hne, hloop, foldl_cons, foldl_insertPair_map_space,
      ← foldl_cons (f := insertPair), ← map_cons,
      foldl_insertPair_pairText (fun p hp => (h p hp).1)]
    rfl

/-! ## The writer -/

structure CookieCall where
  name : Bytes
  value : Bytes
  maxAge : Int := -1
  path : Bytes := text "/"
  httpOnly : Bool := true
  secure : Bool := false

namespace CookieCall

def set (r : HttpResponse) (c : CookieCall) : HttpResponse :=
  r.setCookie c.name c.value c.maxAge c.path c.httpOnly c.secure

def pair (c : CookieCall) : Bytes × Bytes := (c.name, c.value)

def attributes (c : CookieCall) : Bytes :=
  text "; Path=" ++ c.path ++
    (if 0 ≤ c.maxAge then text "; Max-Age=" ++ decimal c.maxAge.toNat else []) ++
    (if c.httpOnly then text "; HttpOnly" else []) ++
    if c.secure then text "; Secure" else []

def cookie (c : CookieCall) : Bytes := pairText c.pair ++ c.attributes

def Plain (c : CookieCall) : Prop := PlainText c.name ∧ PlainText c.value

instance (c : CookieCall) : Decidable c.Plain :=
  inferInstanceAs (Decidable (PlainText c.name ∧ PlainText c.value))

theorem set_eq (r : HttpResponse) (c : CookieCall) :
    c.set r = r.setHeader (text "Set-Cookie") c.cookie := by
  unfold set HttpResponse.setCookie cookie attributes pairText pair
  simp only [append_assoc]

theorem takeWhile_cookie {c : CookieCall} (h : c.Plain) :
    c.cookie.takeWhile (· ≠ 59) = pairText c.pair := by
  have hpair : ∀ b ∈ pairText c.pair, decide (b ≠ 59) = true := by
    intro b hb
    have hnot : 59 ∉ pairText c.pair := notMem_pairText h.1 h.2
    simp only [decide_eq_true_eq]
    rintro rfl
    exact hnot hb
  unfold cookie
  rw [takeWhile_append_of_pos hpair]
  simp [attributes, text]

end CookieCall

def setCookieLines (r : HttpResponse) : List Bytes :=
  (r.fields.filter (fun field => field.1 = text "Set-Cookie")).map Prod.snd

/-- What a client sends back: each line up to the first `;`. -/
def returned (r : HttpResponse) : List Bytes := (setCookieLines r).map (·.takeWhile (· ≠ 59))

theorem map_filter_eq_lookupAll (key : Bytes) (entries : List (Sigma fun _ : Bytes => Bytes)) :
    (entries.filter (fun e => e.1 = key)).map Sigma.snd = entries.lookupAll key := by
  induction entries with
  | nil => rfl
  | cons e entries ih =>
    obtain ⟨k, v⟩ := e
    by_cases hk : k = key
    · subst hk
      rw [lookupAll_cons_eq, filter_cons_of_pos (by simp), map_cons, ih]
    · rw [lookupAll_cons_ne _ _ (fun h => hk h.symm), filter_cons_of_neg (by simpa using hk), ih]

/-- A map has one value for a key, so one line goes out at most. -/
theorem setCookieLines_eq (r : HttpResponse) :
    setCookieLines r = (r.headers.lookup (text "Set-Cookie")).toList := by
  have hlookup : r.headers.lookup (text "Set-Cookie") =
      r.headers.entries.dlookup (text "Set-Cookie") := rfl
  have hother :
      text "Transfer-Encoding" ≠ text "Set-Cookie" ∧ text "Connection" ≠ text "Set-Cookie" ∧
      text "Server" ≠ text "Set-Cookie" ∧ text "Content-Length" ≠ text "Set-Cookie" := by decide
  have hkept : (fun e : Sigma fun _ : Bytes => Bytes => decide (e.1 = text "Set-Cookie") &&
      !(r.chunked_ && decide (e.1 = text "Content-Length"))) =
      fun e => decide (e.1 = text "Set-Cookie") := by
    funext e
    by_cases he : e.1 = text "Set-Cookie"
    · simp [he, hother.2.2.2.symm]
    · simp [he]
  have hfixed : (if r.chunked_ then [(text "Transfer-Encoding", text "chunked")] else []).filter
      (fun field => decide (field.1 = text "Set-Cookie")) = [] := by
    split <;> simp [hother.1]
  unfold setCookieLines HttpResponse.fields HttpResponse.sentHeaders
  rw [hlookup, ← lookupAll_eq_dlookup _ r.headers.nodupKeys, ← map_filter_eq_lookupAll,
    filter_append, filter_append, hfixed, filter_map, filter_filter]
  simp only [Function.comp_def]
  rw [hkept]
  simp [hother.2.1, hother.2.2.1]

variable {r : HttpResponse}

theorem lookup_foldl_set (h : text "Set-Cookie" ∉ r.headers) (calls : List CookieCall) :
    (calls.foldl CookieCall.set r).headers.lookup (text "Set-Cookie") =
      calls.getLast?.map CookieCall.cookie := by
  rcases eq_nil_or_concat calls with rfl | ⟨earlier, last, rfl⟩
  · exact AList.lookup_eq_none.mpr h
  · rw [concat_eq_append, foldl_append, foldl_cons, foldl_nil,
      CookieCall.set_eq, getLast?_concat, Option.map_some, HttpResponse.setHeader,
      AList.lookup_insert]

variable {calls : List CookieCall}

theorem returned_foldl_set (h : text "Set-Cookie" ∉ r.headers) (hplain : ∀ c ∈ calls, c.Plain) :
    returned (calls.foldl CookieCall.set r) =
      (calls.getLast?.toList.map CookieCall.pair).map pairText := by
  unfold returned
  rw [setCookieLines_eq, lookup_foldl_set h]
  cases hlast : calls.getLast? with
  | none => rfl
  | some last =>
    have hmem : last ∈ calls := mem_of_getLast? hlast
    simp only [Option.map_some, Option.toList_some, map_cons, map_nil]
    rw [CookieCall.takeWhile_cookie (hplain last hmem)]

theorem headerLine_in_toString {field : Bytes × Bytes} (h : field ∈ r.fields) :
    headerLine field ++ crlf <:+: r.toString := by
  obtain ⟨front, behind, hsplit⟩ := append_of_mem h
  rw [HttpResponse.toString, HttpResponse.toHeader_append, message_eq_flatMap, hsplit,
    flatMap_append, flatMap_cons]
  refine ⟨r.statusLine ++ crlf ++ front.flatMap (fun f => headerLine f ++ crlf),
    behind.flatMap (fun f => headerLine f ++ crlf) ++ crlf ++ r.tail, ?_⟩
  simp only [append_assoc]

theorem cookie_mem_fields {value : Bytes} (h : r.headers.lookup (text "Set-Cookie") = some value) :
    (text "Set-Cookie", value) ∈ r.fields := by
  have hline : value ∈ setCookieLines r := by
    rw [setCookieLines_eq, h]
    exact mem_singleton_self value
  obtain ⟨⟨key, v⟩, hfield, rfl⟩ := mem_map.mp hline
  obtain ⟨hmem, hkey⟩ := mem_filter.mp hfield
  rw [← of_decide_eq_true hkey]
  exact hmem

/-! ## The round trip -/

theorem lookup_insertAll_singleton (c : CookieCall) (name : Bytes) :
    (insertAll [c.pair]).lookup name = if c.name = name then some c.value else none := by
  unfold insertAll CookieCall.pair
  rw [foldl_cons, foldl_nil]
  split
  · rename_i hname
    rw [← hname]
    exact AList.lookup_insert ..
  · rename_i hname
    rw [AList.lookup_insert_ne (Ne.symm hname), AList.lookup_empty]

/-- What a client that sends the cookies back has read: the cookie of the last call. -/
theorem cookies_returned (h : text "Set-Cookie" ∉ r.headers) (hplain : ∀ c ∈ calls, c.Plain)
    (q : HttpRequest) :
    (q.parseHeader (cookieLine (returned (calls.foldl CookieCall.set r)))).cookies =
      insertAll (calls.getLast?.toList.map CookieCall.pair) := by
  rw [returned_foldl_set h hplain, cookies_cookieLine]
  intro pair hpair
  obtain ⟨last, hlast, rfl⟩ := mem_map.mp hpair
  exact hplain last (mem_of_getLast? (by simpa using hlast))

theorem lookup_last_iff (hnames : (calls.map CookieCall.name).Nodup) :
    (∀ name, (insertAll (calls.getLast?.toList.map CookieCall.pair)).lookup name =
      (calls.find? (fun c => c.name = name)).map CookieCall.value) ↔ calls.length ≤ 1 := by
  cases calls with
  | nil => exact iff_of_true (fun name => AList.lookup_empty name) (Nat.zero_le 1)
  | cons first calls =>
    cases calls with
    | nil =>
      refine iff_of_true (fun name => ?_) (Nat.le_refl 1)
      have hlast : [first].getLast?.toList.map CookieCall.pair = [first.pair] := rfl
      rw [hlast, lookup_insertAll_singleton, find?_singleton]
      by_cases hname : first.name = name <;> simp [hname]
    | cons second calls =>
      refine iff_of_false (fun hlookup => ?_) (by simp)
      obtain ⟨last, hlast⟩ : ∃ last, (second :: calls).getLast? = some last :=
        Option.isSome_iff_exists.mp (by simp)
      have hne : last.name ≠ first.name := by
        rw [map_cons, List.nodup_cons] at hnames
        intro hsame
        exact hnames.1 (hsame ▸ mem_map_of_mem (mem_of_getLast? hlast))
      have hfirst := hlookup first.name
      rw [getLast?_cons_cons, hlast, Option.toList_some, map_singleton,
        lookup_insertAll_singleton, if_neg hne, find?_cons_of_pos (by simp)] at hfirst
      cases hfirst

/-- For all calls with different names: every cookie goes out, and a client that sends the cookies
back has all of them read, exactly when there is one call at most. -/
theorem cookie_round_trip_iff {r : HttpResponse} (h : text "Set-Cookie" ∉ r.headers)
    {calls : List CookieCall} (hplain : ∀ c ∈ calls, c.Plain)
    (hnames : (calls.map CookieCall.name).Nodup) (q : HttpRequest) :
    ((∀ c ∈ calls, headerLine (text "Set-Cookie", c.cookie) ++ crlf <:+:
        (calls.foldl CookieCall.set r).toString) ∧
      ∀ name,
        (q.parseHeader (cookieLine (returned (calls.foldl CookieCall.set r)))).cookies.lookup name =
        (calls.find? (fun c => c.name = name)).map CookieCall.value) ↔
      calls.length ≤ 1 := by
  rw [cookies_returned h hplain, lookup_last_iff hnames, and_iff_right_iff_imp]
  intro hlength c hc
  -- the only call is the last one
  have hcalls : calls = [c] := by
    obtain ⟨first, hfirst⟩ := length_eq_one_iff.mp
      (Nat.le_antisymm hlength (length_pos_of_mem hc))
    rw [hfirst] at hc ⊢
    rw [mem_singleton.mp hc]
  have hlookup := lookup_foldl_set h calls
  rw [hcalls] at hlookup ⊢
  exact headerLine_in_toString (cookie_mem_fields hlookup)

def session : List CookieCall := [{ name := text "session", value := text "abc" }]

theorem cookie_round_trip_iff_session :
    (({} : HttpRequest).parseHeader (cookieLine (returned
      (session.foldl CookieCall.set {})))).cookies.lookup (text "session") = some (text "abc") := by
  have hplain : ∀ c ∈ session, c.Plain := by decide
  have hlaw := cookie_round_trip_iff (r := {}) (by decide) hplain (by decide) {}
  exact (hlaw.mpr (by decide)).2 (text "session")

def sessionAndTheme : List CookieCall :=
  [{ name := text "session", value := text "abc" }, { name := text "theme", value := text "dark" }]

/-- Of two cookies the first one is neither sent nor read. -/
theorem the_first_of_two_cookies_is_lost :
    returned (sessionAndTheme.foldl CookieCall.set {}) = [text "theme=dark"] ∧
      (({} : HttpRequest).parseHeader (cookieLine (returned
        (sessionAndTheme.foldl CookieCall.set {})))).cookies.lookup (text "session") = none := by
  decide

end mymuduo.http_cookies

-- The percent decoding of `HttpCore::urlDecode` (src/http/HttpCore.h) and the query of
-- `HttpRequest::parseQuery` (src/http/HttpRequest.h), each against a reference. `strtol`
-- also reads a space or a sign, and the loop looks for its `=` beyond the piece.
import Mymuduo.HttpRouting

open List bytes words

namespace mymuduo.http_urls

open http_request http_routing

/-! ## Percent decoding -/

/-- The reference: `%` and two hexadecimal digits become the byte that the digits denote. -/
def percentDecode : Bytes → Bytes
  | 37 :: a :: b :: rest =>
    match hexDigitValue a, hexDigitValue b with
    | some high, some low => UInt8.ofNat (16 * high + low) :: percentDecode rest
    | _, _ => 37 :: percentDecode (a :: b :: rest)
  | c :: rest => c :: percentDecode rest
  | [] => []

/-- Two characters that `strtol` reads as a number, although they are no two digits: a space
or a plus before a digit, or a minus before a zero. -/
def OddEscape (a b : UInt8) : Prop :=
  ((isSpace a = true ∨ a = 43) ∧ (hexDigitValue b).isSome) ∨ (a = 45 ∧ b = 48)

variable {c : UInt8}

theorem hexDigitValue_eq_some_iff {n : Nat} :
    hexDigitValue c = some n ↔
      (48 ≤ c.toNat ∧ c.toNat ≤ 57 ∧ n + 48 = c.toNat) ∨
        (97 ≤ c.toNat ∧ c.toNat ≤ 102 ∧ n + 87 = c.toNat) ∨
        65 ≤ c.toNat ∧ c.toNat ≤ 70 ∧ n + 55 = c.toNat := by
  unfold hexDigitValue
  simp only [UInt8.le_iff_toNat_le, UInt8.reduceToNat]
  split
  · rw [Option.some.injEq]
    omega
  · split
    · rw [Option.some.injEq]
      omega
    · split
      · rw [Option.some.injEq]
        omega
      · simp only [reduceCtorEq, false_iff]
        omega

theorem hexDigitValue_lt {n : Nat} (h : hexDigitValue c = some n) : n < 16 := by
  rw [hexDigitValue_eq_some_iff] at h
  omega

theorem hexDigitValue_eq_none_of_lt (h : c.toNat < 48) : hexDigitValue c = none := by
  cases hvalue : hexDigitValue c with
  | none => rfl
  | some n =>
    rw [hexDigitValue_eq_some_iff] at hvalue
    omega

variable {a b : UInt8}

theorem OddEscape.hexDigitValue_eq_none (h : OddEscape a b) : hexDigitValue a = none := by
  apply hexDigitValue_eq_none_of_lt
  rcases h with ⟨hspace | rfl, -⟩ | ⟨rfl, -⟩
  · simp only [isSpace, Bool.or_eq_true, Bool.and_eq_true, decide_eq_true_eq,
      UInt8.le_iff_toNat_le, ← UInt8.toNat_inj, UInt8.reduceToNat] at hspace
    omega
  · decide
  · decide

/-- An odd escape stands for the value of its one digit. -/
theorem OddEscape.strtolHex_eq (h : OddEscape a b) : ∃ low < 16, strtolHex a b = some low := by
  have hnone := h.hexDigitValue_eq_none
  unfold strtolHex
  rw [hnone]
  rcases h with ⟨hfirst, hdigit⟩ | ⟨rfl, rfl⟩
  · obtain ⟨low, hlow⟩ := Option.isSome_iff_exists.mp hdigit
    refine ⟨low, hexDigitValue_lt hlow, ?_⟩
    rw [hlow]
    simp [hfirst]
  · exact ⟨0, by decide, by decide⟩

theorem strtolHex_of_not_odd (h : ¬OddEscape a b) :
    strtolHex a b =
      match hexDigitValue a, hexDigitValue b with
      | some high, some low => some (16 * high + low)
      | _, _ => none := by
  unfold strtolHex
  cases ha : hexDigitValue a with
  | some high => cases hexDigitValue b <;> rfl
  | none =>
    cases hb : hexDigitValue b with
    | none => rfl
    | some low =>
      have hfirst : ¬(isSpace a = true ∨ a = 43) := fun hfirst => h (Or.inl ⟨hfirst, by simp [hb]⟩)
      have hminus : ¬(a = 45 ∧ low = 0) := by
        rintro ⟨hminus, rfl⟩
        have hzero : b.toNat = 48 := by
          rw [hexDigitValue_eq_some_iff] at hb
          omega
        exact h (Or.inr ⟨hminus, UInt8.toNat_inj.mp hzero⟩)
      simp [hfirst, hminus]

def NoOdd (s : Bytes) : Prop := ∀ a b, OddEscape a b → ¬[37, a, b] <:+: s

theorem noOdd_cons_iff {rest : Bytes} (h : ∀ a b, OddEscape a b → ¬[37, a, b] <+: c :: rest) :
    NoOdd (c :: rest) ↔ NoOdd rest := by
  refine forall_congr' fun a => forall_congr' fun b => imp_congr_right fun hodd => not_congr ?_
  rw [infix_cons_iff]
  exact or_iff_right (h a b hodd)

theorem noOdd_cons_of_ne (hc : c ≠ 37) (rest : Bytes) : NoOdd (c :: rest) ↔ NoOdd rest := by
  apply noOdd_cons_iff
  rintro a b - ⟨behind, hbehind⟩
  exact hc (List.cons.inj hbehind).1.symm

theorem noOdd_mark_iff (h : ¬OddEscape a b) (rest : Bytes) :
    NoOdd (37 :: a :: b :: rest) ↔ NoOdd (a :: b :: rest) := by
  apply noOdd_cons_iff
  rintro a' b' hodd ⟨behind, hbehind⟩
  simp only [cons_append, List.cons.injEq] at hbehind
  obtain ⟨-, rfl, rfl, -⟩ := hbehind
  exact h hodd

theorem ne_mark_of_digit {n : Nat} (h : hexDigitValue c = some n) : c ≠ 37 := by
  rintro rfl
  have hmark : hexDigitValue 37 = none := by decide
  rw [hmark] at h
  cases h

/-- Both decoders keep a `%` without two digits behind it, odd escapes apart. -/
theorem decode_kept (hodd : ¬OddEscape a b)
    (hnot : ∀ high low, hexDigitValue a = some high → hexDigitValue b = some low → False)
    (rest : Bytes) :
    urlDecode (37 :: a :: b :: rest) = 37 :: urlDecode (a :: b :: rest) ∧
      percentDecode (37 :: a :: b :: rest) = 37 :: percentDecode (a :: b :: rest) := by
  have hread : strtolHex a b = none := by
    rw [strtolHex_of_not_odd hodd]
    split
    · rename_i high low ha hb
      exact (hnot high low ha hb).elim
    · rfl
  constructor
  · rw [urlDecode, hread]
  · rw [percentDecode]
    split
    · rename_i high low ha hb
      exact (hnot high low ha hb).elim
    · rfl

/-- For every text, `urlDecode` is the reference decoder exactly when no `%` in it is followed
by a space or a sign and a digit that `strtol` reads as a number. -/
theorem percent_decoding_is_exact_iff (s : Bytes) :
    urlDecode s = percentDecode s ↔ ∀ a b, OddEscape a b → ¬[37, a, b] <:+: s := by
  change _ ↔ NoOdd s
  induction s using percentDecode.induct with
  | case1 a b rest high low hb ha ih =>
    have hodd : ¬OddEscape a b := fun h => by simp [h.hexDigitValue_eq_none] at ha
    rw [noOdd_mark_iff hodd, noOdd_cons_of_ne (ne_mark_of_digit ha),
      noOdd_cons_of_ne (ne_mark_of_digit hb), ← ih, urlDecode, percentDecode,
      strtolHex_of_not_odd hodd]
    simp only [ha, hb]
    rw [cons_inj_right]
  | case2 a b rest hnot ih =>
    by_cases hodd : OddEscape a b
    · -- the escape is decoded to a small byte, and the reference keeps the `%`
      obtain ⟨low, hlow, hread⟩ := hodd.strtolHex_eq
      have hnone := hodd.hexDigitValue_eq_none
      rw [urlDecode, percentDecode]
      simp only [hread, hnone]
      constructor
      · intro heq
        have hhead := congrArg UInt8.toNat (List.cons.inj heq).1
        simp at hhead
        omega
      · intro hall
        exact absurd (prefix_append [37, a, b] rest).isInfix (hall a b hodd)
    · obtain ⟨hread, hkeep⟩ := decode_kept hodd hnot rest
      rw [hread, hkeep, cons_inj_right, ih, noOdd_mark_iff hodd]
  | case3 c rest hother ih =>
    have hread : urlDecode (c :: rest) = c :: urlDecode rest := by
      rw [urlDecode]
      exact hother
    have hkeep : percentDecode (c :: rest) = c :: percentDecode rest := by
      rw [percentDecode]
      exact hother
    rw [hread, hkeep, cons_inj_right, ih, noOdd_cons_iff]
    rintro a b - ⟨behind, hbehind⟩
    have hparts := List.cons.inj hbehind
    exact hother a b behind hparts.1.symm hparts.2.symm
  | case4 => exact iff_of_true rfl (fun a b _ => by simp)

/-- A plus before a digit is decoded to a control character. -/
theorem a_plus_is_decoded_as_a_digit :
    urlDecode (text "%+5") = [5] ∧ percentDecode (text "%+5") = text "%+5" ∧
      urlDecode (text "%+5") ≠ percentDecode (text "%+5") := by
  refine ⟨by decide, by decide, by decide⟩

/-! ## The query -/

/-- A piece with an `=` gives a parameter, and one without gives none. -/
def insertPiece (params : StringMap) (piece : Bytes) : StringMap :=
  match find (text "=") piece with
  | none => params
  | some eq => params.insert (piece.take eq) (piece.drop (eq + 1))

/-- The reference: the pieces between the `&`, of which a later one wins. -/
def queryParams (q : Bytes) : StringMap := (q.splitOn 38).foldl insertPiece ∅

/-- A piece without an `=` has no piece with one behind it. -/
def NamesFirst (pieces : List Bytes) : Prop :=
  pieces.Pairwise (fun piece later => 61 ∈ later → 61 ∈ piece)

theorem notMem_of_mem_splitOn {s piece : Bytes} (h : piece ∈ s.splitOn c) : c ∉ piece := by
  rw [splitOn_eq_splitOnP] at h
  induction s generalizing piece with
  | nil =>
    rw [splitOnP_nil, mem_singleton] at h
    simp [h]
  | cons x xs ih =>
    rw [splitOnP_cons_eq_if_modifyHead] at h
    split at h
    · rcases mem_cons.mp h with rfl | hrest
      · simp
      · exact ih hrest
    · rename_i hx
      obtain ⟨first, rest, hsplit⟩ := exists_cons_of_ne_nil (splitOnP_ne_nil (· == c) xs)
      rw [hsplit, modifyHead_cons] at h
      rcases mem_cons.mp h with rfl | hrest
      · have hfirst : c ∉ first := ih (by simp [hsplit])
        have hne : c ≠ x := fun e => hx (by simp [e])
        simp [hne, hfirst]
      · exact ih (by simp [hsplit, hrest])

theorem insertPiece_of_notMem {piece : Bytes} (h : 61 ∉ piece) (params : StringMap) :
    insertPiece params piece = params := by
  unfold insertPiece
  have hnone : find (text "=") piece = none := find_eq_none_of_notMem h []
  rw [hnone]

variable {key : Bytes}

theorem insertPiece_of_mem (h : 61 ∉ key) (value : Bytes) (params : StringMap) :
    insertPiece params (key ++ 61 :: value) = params.insert key value := by
  have hfind : find (text "=") (key ++ 61 :: value) = some key.length := find_behind h [] value
  unfold insertPiece
  rw [hfind]
  simp

variable {pieces : List Bytes}

theorem foldl_insertPiece_of_notMem (h : ∀ piece ∈ pieces, 61 ∉ piece) (params : StringMap) :
    pieces.foldl insertPiece params = params := by
  induction pieces with
  | nil => rfl
  | cons piece pieces ih =>
    rw [foldl_cons, insertPiece_of_notMem (h piece (mem_cons_self ..))]
    exact ih (fun p hp => h p (mem_cons_of_mem piece hp))

/-- The keys of the reference come from pieces, so there is no `&` in them. -/
theorem lookup_foldl_insertPiece (h : ∀ piece ∈ pieces, 38 ∉ piece) (hkey : 38 ∈ key)
    (params : StringMap) : (pieces.foldl insertPiece params).lookup key = params.lookup key := by
  induction pieces generalizing params with
  | nil => rfl
  | cons piece pieces ih =>
    rw [foldl_cons, ih (fun p hp => h p (mem_cons_of_mem piece hp))]
    have hpiece := h piece (mem_cons_self ..)
    unfold insertPiece
    split
    · rfl
    · rename_i eq _
      have hne : key ≠ piece.take eq := by
        rintro rfl
        exact hpiece (mem_of_mem_take hkey)
      exact AList.lookup_insert_ne hne

/-! ## One round of the loop -/

variable (before : Bytes)

theorem parseQueryFrom_round (rest : Bytes) (fuel : Nat) (params : StringMap) :
    parseQueryFrom (before ++ rest) (fuel + 1) before.length params =
      match find (text "=") rest with
      | none => params
      | some eq =>
        match find (text "&") rest with
        | none => params.insert (rest.take eq) (rest.drop (eq + 1))
        | some amp => parseQueryFrom (before ++ rest) fuel (before.length + (amp + 1))
            (params.insert (rest.take eq) (substr rest (eq + 1)
              (sub64 (sub64 (before.length + amp) (before.length + eq)) 1))) := by
  have hnil : rest = [] → find (text "=") rest = none := by
    rintro rfl
    decide
  rw [parseQueryFrom, findFrom_append, findFrom_append]
  cases heq : find (text "=") rest with
  | none => simp
  | some eq =>
    have hlength : before.length < (before ++ rest).length := by
      rw [length_append, Nat.lt_add_right_iff_pos, length_pos_iff]
      intro hrest
      rw [hnil hrest] at heq
      cases heq
    rw [if_pos hlength]
    cases find (text "&") rest <;>
      simp [substr, Nat.add_comm _ before.length, Nat.add_assoc]

theorem parseQueryFrom_no_eq {rest : Bytes} (h : 61 ∉ rest) (fuel : Nat) (params : StringMap) :
    parseQueryFrom (before ++ rest) fuel before.length params = params := by
  cases fuel with
  | zero => rfl
  | succ fuel =>
    have hnone : find (text "=") rest = none := find_eq_none_of_notMem h []
    rw [parseQueryFrom_round, hnone]

theorem parseQueryFrom_last {value : Bytes} (hkey : 61 ∉ key)
    (hpiece : 38 ∉ key ++ 61 :: value) (fuel : Nat) (params : StringMap) :
    parseQueryFrom (before ++ (key ++ 61 :: value)) (fuel + 1) before.length params =
      params.insert key value := by
  have heq : find (text "=") (key ++ 61 :: value) = some key.length := find_behind hkey [] value
  have hamp : find (text "&") (key ++ 61 :: value) = none := find_eq_none_of_notMem hpiece []
  rw [parseQueryFrom_round, heq, hamp]
  simp

theorem parseQueryFrom_next {piece rest : Bytes} (hamp : 38 ∉ piece) {eq : Nat}
    (heq : find (text "=") (piece ++ 38 :: rest) = some eq) (fuel : Nat) (params : StringMap) :
    parseQueryFrom (before ++ (piece ++ 38 :: rest)) (fuel + 1) before.length params =
      parseQueryFrom ((before ++ piece ++ [38]) ++ rest) fuel (before ++ piece ++ [38]).length
        (params.insert ((piece ++ 38 :: rest).take eq) (substr (piece ++ 38 :: rest) (eq + 1)
          (sub64 (sub64 (before.length + piece.length) (before.length + eq)) 1))) := by
  have hfind : find (text "&") (piece ++ 38 :: rest) = some piece.length := find_behind hamp [] rest
  rw [parseQueryFrom_round, heq, hfind]
  simp

theorem parseQueryFrom_piece {value : Bytes} (hkey : 61 ∉ key) (hpiece : 38 ∉ key ++ 61 :: value)
    (rest : Bytes) (hmax : (before ++ (key ++ 61 :: value ++ 38 :: rest)).length < 2 ^ 63)
    (fuel : Nat) (params : StringMap) :
    parseQueryFrom (before ++ (key ++ 61 :: value ++ 38 :: rest)) (fuel + 1) before.length params =
      parseQueryFrom ((before ++ (key ++ 61 :: value) ++ [38]) ++ rest) fuel
        (before ++ (key ++ 61 :: value) ++ [38]).length (params.insert key value) := by
  have heq : find (text "=") (key ++ 61 :: value ++ 38 :: rest) = some key.length := by
    rw [append_assoc]
    exact find_behind hkey [] _
  simp only [length_append, length_cons] at hmax
  have hinner : sub64 (before.length + (key ++ 61 :: value).length) (before.length + key.length) =
      value.length + 1 := by
    rw [length_append, length_cons, sub64_eq (by omega) (by omega)]
    omega
  have hcount : sub64 (value.length + 1) 1 = value.length := sub64_eq (by omega) (by omega)
  rw [parseQueryFrom_next before hpiece heq, hinner, hcount]
  simp [substr]

/-- A piece without an `=`, with one somewhere behind it: the text up to there becomes a key. -/
theorem parseQueryFrom_odd {piece rest : Bytes} (hpiece : 61 ∉ piece)
    (hamp : 38 ∉ piece) (hrest : 61 ∈ rest) (fuel : Nat) (params : StringMap) :
    ∃ key value, 38 ∈ key ∧
      parseQueryFrom (before ++ (piece ++ 38 :: rest)) (fuel + 1) before.length params =
        parseQueryFrom ((before ++ piece ++ [38]) ++ rest) fuel (before ++ piece ++ [38]).length
          (params.insert key value) := by
  obtain ⟨front, behind, rfl, hfront⟩ := eq_append_cons_of_mem hrest
  have hnone : 61 ∉ piece ++ 38 :: front := by simp [hpiece, hfront]
  have hwhole :
      piece ++ 38 :: (front ++ 61 :: behind) = (piece ++ 38 :: front) ++ 61 :: behind := by
    simp
  have heq : find (text "=") (piece ++ 38 :: (front ++ 61 :: behind)) =
      some (piece ++ 38 :: front).length := by
    rw [hwhole]
    exact find_behind hnone [] behind
  -- the length of the value wraps, but the value does not matter
  refine ⟨_, _, ?_, parseQueryFrom_next before hamp heq fuel params⟩
  rw [hwhole, take_left]
  simp

theorem lookup_parseQueryFrom {q : Bytes} {fuel start : Nat} {params : StringMap}
    (h : (params.lookup key).isSome) :
    ((parseQueryFrom q fuel start params).lookup key).isSome := by
  have hinsert : ∀ (params : StringMap) k v, (params.lookup key).isSome →
      ((params.insert k v).lookup key).isSome := by
    intro params k v hparams
    by_cases hkey : key = k
    · subst hkey
      simp
    · rwa [AList.lookup_insert_ne hkey]
  induction fuel generalizing start params with
  | zero => exact h
  | succ fuel ih =>
    rw [parseQueryFrom]
    split
    · split
      · exact h
      · dsimp only
        split
        · exact hinsert _ _ _ h
        · exact ih (hinsert _ _ _ h)
    · exact h

/-! ## The whole loop -/

theorem mem_intercalate_iff : 61 ∈ [38].intercalate pieces ↔ ∃ piece ∈ pieces, 61 ∈ piece := by
  induction pieces with
  | nil => simp
  | cons piece pieces ih =>
    cases pieces with
    | nil => simp
    | cons next pieces =>
      rw [intercalate_cons_cons, mem_append, mem_append, ih]
      simp

/-- Where the pieces with an `=` come first, the loop inserts what the reference inserts. A piece
without an `=` before one that has it leaves a key with an `&`. -/
theorem parseQueryFrom_pieces (hamp : ∀ piece ∈ pieces, 38 ∉ piece)
    (hmax : (before ++ [38].intercalate pieces).length < 2 ^ 63) {fuel : Nat}
    (hfuel : pieces.length ≤ fuel) (params : StringMap) :
    let parsed := parseQueryFrom (before ++ [38].intercalate pieces) fuel before.length params
    (NamesFirst pieces → parsed = pieces.foldl insertPiece params) ∧
      (¬NamesFirst pieces → ∃ key, 38 ∈ key ∧ (parsed.lookup key).isSome) := by
  induction pieces generalizing before fuel params with
  | nil =>
    exact ⟨fun _ => parseQueryFrom_no_eq before (by simp) fuel params,
      fun hfirst => absurd List.Pairwise.nil hfirst⟩
  | cons piece pieces ih =>
    have hpiece := hamp piece (mem_cons_self ..)
    obtain ⟨fuel, rfl⟩ : ∃ n, fuel = n + 1 := ⟨fuel - 1, by simp at hfuel; omega⟩
    rw [NamesFirst, pairwise_cons]
    by_cases hname : 61 ∈ piece
    · obtain ⟨key, value, rfl, hkey⟩ := eq_append_cons_of_mem hname
      rw [and_iff_right (fun _ _ _ => hname), foldl_cons, insertPiece_of_mem hkey]
      cases pieces with
      | nil =>
        rw [intercalate_singleton, parseQueryFrom_last before hkey hpiece]
        exact ⟨fun _ => rfl, fun hfirst => absurd List.Pairwise.nil hfirst⟩
      | cons next pieces =>
        rw [intercalate_cons_cons, append_assoc _ [38], singleton_append] at hmax ⊢
        rw [parseQueryFrom_piece before hkey hpiece _ hmax]
        refine ih _ (fun p hp => hamp p (mem_cons_of_mem _ hp)) ?_ (by simpa using hfuel) _
        simpa using hmax
    · by_cases hlater : 61 ∈ [38].intercalate pieces
      · obtain ⟨p, hp, hmem⟩ := mem_intercalate_iff.mp hlater
        refine ⟨fun hfirst => absurd (hfirst.1 p hp hmem) hname, fun _ => ?_⟩
        obtain ⟨next, pieces, rfl⟩ := exists_cons_of_ne_nil (ne_nil_of_mem hp)
        obtain ⟨key, value, hodd, hround⟩ :=
          parseQueryFrom_odd before hname hpiece hlater fuel params
        refine ⟨key, hodd, ?_⟩
        rw [intercalate_cons_cons, append_assoc, singleton_append, hround]
        exact lookup_parseQueryFrom (by simp)
      · have hnone : ∀ p ∈ pieces, 61 ∉ p :=
          fun p hp hmem => hlater (mem_intercalate_iff.mpr ⟨p, hp, hmem⟩)
        have hall : ∀ p ∈ piece :: pieces, 61 ∉ p := forall_mem_cons.mpr ⟨hname, hnone⟩
        refine ⟨fun _ => ?_, fun hfirst => absurd ⟨?_, ?_⟩ hfirst⟩
        · rw [foldl_insertPiece_of_notMem hall]
          refine parseQueryFrom_no_eq before ?_ _ params
          rw [mem_intercalate_iff]
          rintro ⟨p, hp, hmem⟩
          exact hall p hp hmem
        · exact fun p hp hmem => absurd hmem (hnone p hp)
        · exact pairwise_of_forall_mem_list (fun _ _ p hp hmem => absurd hmem (hnone p hp))

/-- For every query in a request line, the parameters are those of the reference exactly when
no piece without an `=` stands before a piece with one. -/
theorem query_parsing_iff {method path q : Bytes} (version : Bytes) (hmethod : 32 ∉ method)
    (hpath : 32 ∉ path ∧ 63 ∉ path) (hq : 32 ∉ q) (hmax : q.length < 2 ^ 63) :
    ∃ parsed, ({} : HttpRequest).parseRequestLine
        (method ++ text " " ++ (path ++ text "?" ++ q) ++ text " " ++ version) = some parsed ∧
      parsed.query = q ∧
      ((∀ key, parsed.params.lookup key = (queryParams q).lookup key) ↔
        NamesFirst (q.splitOn 38)) := by
  refine ⟨_, HttpRequest.parseRequestLine_query {} version hmethod hpath.1 hq hpath.2, rfl, ?_⟩
  have hamp : ∀ piece ∈ q.splitOn 38, 38 ∉ piece := fun piece => notMem_of_mem_splitOn
  have hjoin : [38].intercalate (q.splitOn 38) = q := intercalate_splitOn 38
  have hfuel : (q.splitOn 38).length ≤ q.length + 1 := by
    have hpieces := length_le_length_intercalate_succ 38 (q.splitOn 38)
    rwa [hjoin] at hpieces
  obtain ⟨hfoldl, hleft⟩ :=
    parseQueryFrom_pieces [] hamp (by rw [hjoin]; exact hmax) hfuel ∅
  rw [nil_append, hjoin, length_nil] at hfoldl hleft
  dsimp only
  unfold parseQuery queryParams
  constructor
  · intro hsame
    by_contra hfirst
    obtain ⟨key, hodd, hkey⟩ := hleft hfirst
    rw [hsame key, lookup_foldl_insertPiece hamp hodd] at hkey
    cases hkey
  · intro hfirst key
    rw [hfoldl hfirst]

theorem query_parsing_iff_nameAndAge :
    ∃ parsed, ({} : HttpRequest).parseRequestLine
        (text "GET" ++ text " " ++ (text "/" ++ text "?" ++ text "name=Alice&age=20&x") ++
          text " " ++
          text "HTTP/1.1") = some parsed ∧
      parsed.query = text "name=Alice&age=20&x" ∧
      ((∀ key, parsed.params.lookup key = (queryParams (text "name=Alice&age=20&x")).lookup key) ↔
        NamesFirst ((text "name=Alice&age=20&x").splitOn 38)) :=
  query_parsing_iff (text "HTTP/1.1") (by decide) (by decide) (by decide) (by decide)

/-- A piece without an `=` in front gives a parameter that is not there. -/
theorem a_flag_before_a_name_makes_a_key :
    (({} : HttpRequest).parseRequestLine (text "GET /?a&b=1 HTTP/1.1")).map
        (fun r => r.params.lookup (text "a&b")) = some (some (text "1")) ∧
      (queryParams (text "a&b=1")).lookup (text "a&b") = none := by
  refine ⟨by decide, by decide⟩

end mymuduo.http_urls

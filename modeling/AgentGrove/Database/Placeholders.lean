import AgentGrove.Model.Db
import AgentGrove.Proofs.Basic
import AgentGrove.Wire.SqlText

namespace AgentGrove.Db

open Results (bind_ok)
open Worktrees (showInt)
open Sql

section Text

variable {rest : Text}

theorem showInt_plain {i : Int} (hi : 0 ≤ i) : Plain (showInt i) := by
  intro c hc
  rw [showInt, Int.repr_eq_if, if_pos hi, Nat.toList_repr] at hc
  have hdigit := Nat.isDigit_of_mem_toDigits (by decide) (by decide) hc
  constructor
  · rintro rfl
    simp at hdigit
  · rintro rfl
    simp at hdigit

theorem limits_plain {params : RowsParams} (hlimit : 0 ≤ params.limit) (hoffset : 0 ≤ params.offset) :
    Plain (limits params) :=
  have hstart : Plain " LIMIT ".toList := by decide
  have hmiddle : Plain " OFFSET ".toList := by decide
  (((hstart.append (showInt_plain hlimit)).append hmiddle).append (showInt_plain hoffset)).append (by decide)

theorem limits_head (params : RowsParams) : (limits params).head? = some ' ' := rfl

theorem normalizeOp_plain (toLowercase : Text → Text) (op : Text) : Plain (normalizeOp toLowercase op) := by
  unfold normalizeOp
  dsimp only
  repeat' apply Plain.ite
  all_goals decide

/-- A valid identifier needs no escape. -/
theorem quote_not_mem {s : Text} (h : validateIdentifier s = .ok ()) : '"' ∉ s := by
  unfold validateIdentifier at h
  split at h
  · cases h
  · rename_i first chars
    split at h
    · cases h
    · split at h
      · cases h
      · rename_i hfirst hchars
        intro hm
        rcases List.mem_cons.mp hm with heq | hm
        · rw [← heq] at hfirst
          exact hfirst (by decide)
        · simp only [Bool.not_eq_true', Bool.not_eq_false, List.all_eq_true] at hchars
          exact absurd (hchars _ hm) (by decide)

theorem marks_qualified {p schema name : Text} (hp : Plain p) (hschema : '"' ∉ schema) (hname : '"' ∉ name)
    (hrest : rest.head? ≠ some '"') :
    marks none (p ++ quoteQualified schema name ++ rest) = .quoted schema :: .quoted name :: marks none rest := by
  have hsplit : p ++ quoteQualified schema name ++ rest =
      p ++ '"' :: (schema ++ '"' :: (['.'] ++ '"' :: (name ++ '"' :: rest))) := by
    simp [quoteQualified]
  rw [hsplit, marks_plain hp, marks_quoted hschema (by simp), marks_plain (by decide), marks_quoted hname hrest]

theorem selectFrom_plain : Plain "SELECT to_jsonb(t) AS row FROM (SELECT * FROM ".toList := by simp [Plain]

end Text

/-- The value tests for null, and is not bound. -/
def RowsParams.nullTest (toLowercase : Text → Text) (params : RowsParams) : Bool :=
  eqIgnoreAsciiCase (params.op toLowercase) "=".toList &&
    (eqIgnoreAsciiCase (trim params.val) "null".toList || eqIgnoreAsciiCase (trim params.val) "not null".toList)

def RowsParams.columns (params : RowsParams) : List Text := if params.hasFilter then [params.column] else []

def RowsParams.bound (params : RowsParams) : List Text := if params.hasFilter then [params.val] else []

/-- The text of a query that is accepted. -/
def sqlText (toLowercase : Text → Text) (quotedTable : Text) (params : RowsParams) : Text :=
  if params.hasFilter then
    selectFrom quotedTable ++ " WHERE \"".toList ++ params.column ++ "\" ".toList ++
      condition (params.op toLowercase) params.val ++ limits params
  else selectFrom quotedTable ++ limits params

/-- The checks that a request passes. -/
structure Accepted (connected : Except DbError Unit) (table : Text) (params : RowsParams) (schema name : Text) :
    Prop where
  table : splitTable table = .ok (schema, name)
  connected : connected = .ok ()
  limit : 1 ≤ params.limit ∧ params.limit ≤ 1000
  offset : 0 ≤ params.offset
  column : params.hasFilter = true → validateIdentifier params.column = .ok ()

section Rows

variable {toLowercase : Text → Text} {connected : Except DbError Unit} {table schema name : Text} {params : RowsParams}

theorem build_ok {quotedTable sql : Text} : buildFilteredQuery toLowercase quotedTable params = .ok sql ↔
    (1 ≤ params.limit ∧ params.limit ≤ 1000) ∧ 0 ≤ params.offset ∧
      (params.hasFilter = true → validateIdentifier params.column = .ok ()) ∧
      sql = sqlText toLowercase quotedTable params := by
  unfold buildFilteredQuery sqlText
  split
  · refine iff_of_false (by simp) ?_
    omega
  · split
    · refine iff_of_false (by simp) ?_
      omega
    · rename_i hlimit hoffset
      have hlimits : (1 ≤ params.limit ∧ params.limit ≤ 1000) ∧ 0 ≤ params.offset := by omega
      cases hfilter : params.hasFilter with
      | false => simpa [hlimits, pure, Except.pure] using eq_comm
      | true =>
        cases hcolumn : validateIdentifier params.column with
        | error e => simp [bind, Except.bind]
        | ok => simpa [hlimits, bind, Except.bind, pure, Except.pure] using eq_comm

theorem rows_ok {out : Text × List Text} : rows toLowercase connected table params = .ok out ↔
    ∃ schema name, Accepted connected table params schema name ∧
      out = (sqlText toLowercase (quoteQualified schema name) params, params.bound) := by
  unfold rows
  constructor
  · intro h
    obtain ⟨⟨schema, name⟩, htable, h⟩ := bind_ok h
    obtain ⟨⟨⟩, hconnected, h⟩ := bind_ok h
    obtain ⟨sql, hsql, h⟩ := bind_ok h
    obtain ⟨hlimit, hoffset, hcolumn, rfl⟩ := build_ok.mp hsql
    cases h
    exact ⟨schema, name, ⟨htable, hconnected, hlimit, hoffset, hcolumn⟩, rfl⟩
  · rintro ⟨schema, name, h, rfl⟩
    have hsql : buildFilteredQuery toLowercase (quoteQualified schema name) params = .ok _ :=
      build_ok.mpr ⟨h.limit, h.offset, h.column, rfl⟩
    simp only [h.table, h.connected, hsql, bind, Except.bind]
    rfl

theorem splitTable_valid (h : splitTable table = .ok (schema, name)) :
    validateIdentifier schema = .ok () ∧ validateIdentifier name = .ok () := by
  unfold splitTable at h
  split at h
  · cases h
  · split at h
    · obtain ⟨⟨⟩, hschema, h⟩ := bind_ok h
      obtain ⟨⟨⟩, hname, h⟩ := bind_ok h
      cases h
      exact ⟨hschema, hname⟩
    · obtain ⟨⟨⟩, hname, h⟩ := bind_ok h
      cases h
      exact ⟨by decide, hname⟩

theorem condition_null (h : params.nullTest toLowercase = true) :
    Plain (condition (params.op toLowercase) params.val) := by
  unfold RowsParams.nullTest at h
  obtain ⟨hop, hval⟩ := Bool.and_eq_true_iff.mp h
  unfold condition
  rw [hop, Bool.and_true, Bool.and_true]
  split
  · decide
  · rename_i hnull
    rw [(Bool.or_eq_true_iff.mp hval).resolve_left hnull, if_pos rfl]
    decide

theorem condition_other (h : params.nullTest toLowercase = false) :
    condition (params.op toLowercase) params.val = params.op toLowercase ++ " $1".toList := by
  unfold RowsParams.nullTest at h
  unfold condition
  cases hop : eqIgnoreAsciiCase (params.op toLowercase) "=".toList with
  | false => rw [Bool.and_false, Bool.and_false, if_neg Bool.false_ne_true, if_neg Bool.false_ne_true]
  | true =>
    rw [hop, Bool.true_and, Bool.or_eq_false_iff] at h
    rw [h.1, h.2, Bool.false_and, if_neg Bool.false_ne_true, if_neg Bool.false_ne_true]

/-- What the server reads of the condition and what follows. -/
theorem marks_condition (hlimits : Plain (limits params)) :
    marks none (' ' :: (condition (params.op toLowercase) params.val ++ limits params)) =
      if params.nullTest toLowercase then [] else [.placeholder ['1']] := by
  cases hnull : params.nullTest toLowercase with
  | true =>
    have hplain : Plain ([' '] ++ (condition (params.op toLowercase) params.val ++ limits params)) :=
      (by decide : Plain [' ']).append ((condition_null hnull).append hlimits)
    exact marks_of_plain hplain
  | false =>
    have hplain : Plain (' ' :: (params.op toLowercase ++ [' '])) :=
      ((by decide : Plain [' ']).append (normalizeOp_plain _ _)).append (by decide)
    have hsplit : ' ' :: (params.op toLowercase ++ " $1".toList ++ limits params) =
        ' ' :: (params.op toLowercase ++ [' ']) ++ '$' :: (['1'] ++ limits params) := by
      have hdollar : " $1".toList = [' ', '$', '1'] := rfl
      simp [hdollar]
    have hdigits : ∀ c ∈ ['1'], c.isDigit = true := List.forall_mem_singleton.mpr rfl
    rw [condition_other hnull, hsplit, marks_plain hplain, marks_placeholder hdigits (by simp) (by simp [limits_head]),
      marks_of_plain hlimits]
    rfl

theorem marks_sqlText (h : Accepted connected table params schema name) :
    marks none (sqlText toLowercase (quoteQualified schema name) params) =
      .quoted schema :: .quoted name ::
        if params.hasFilter then
          .quoted params.column :: if params.nullTest toLowercase then [] else [.placeholder ['1']]
        else [] := by
  obtain ⟨hschema, hname⟩ := splitTable_valid h.table
  have hlimits : Plain (limits params) := limits_plain (by have := h.limit; omega) h.offset
  unfold sqlText
  cases hfilter : params.hasFilter with
  | false =>
    have hrest : (limits params).head? ≠ some '"' := by rw [limits_head]; decide
    have hmarks := marks_qualified selectFrom_plain (quote_not_mem hschema) (quote_not_mem hname) hrest
    rw [marks_of_plain hlimits] at hmarks
    exact hmarks
  | true =>
    have hcolumn := quote_not_mem (h.column hfilter)
    have hsplit (p : Text) : p ++ " WHERE \"".toList ++ params.column ++ "\" ".toList ++
        condition (params.op toLowercase) params.val ++ limits params =
          p ++ (" WHERE ".toList ++ '"' :: (params.column ++
            '"' :: (' ' :: (condition (params.op toLowercase) params.val ++ limits params)))) := by
      have hopen : " WHERE \"".toList = " WHERE ".toList ++ ['"'] := rfl
      have hclose : "\" ".toList = ['"', ' '] := rfl
      rw [hopen, hclose]
      simp only [List.append_assoc, List.cons_append, List.nil_append]
    have hfiltered : marks none (" WHERE ".toList ++ '"' :: (params.column ++
        '"' :: (' ' :: (condition (params.op toLowercase) params.val ++ limits params)))) =
          .quoted params.column :: if params.nullTest toLowercase then [] else [.placeholder ['1']] := by
      rw [marks_plain (by decide), marks_quoted hcolumn (by simp), marks_condition hlimits]
    rw [if_pos rfl, hsplit, ← hfiltered]
    exact marks_qualified selectFrom_plain (quote_not_mem hschema) (quote_not_mem hname) (by simp)

/-- Without a null test there is a placeholder for what is bound. -/
theorem marks_bound (h : Accepted connected table params schema name)
    (hnull : params.hasFilter = true → params.nullTest toLowercase = false) :
    marks none (sqlText toLowercase (quoteQualified schema name) params) =
      (schema :: name :: params.columns).map .quoted ++ params.bound.map (fun _ => .placeholder ['1']) := by
  rw [marks_sqlText h, RowsParams.columns, RowsParams.bound]
  cases hfilter : params.hasFilter with
  | false => rfl
  | true =>
    rw [hnull hfilter]
    rfl

/-- The text depends on the value only as a null test. -/
theorem sqlText_val {q : Text} (val : Option Text) (h : params.nullTest toLowercase = false)
    (h' : { params with filterVal := val }.nullTest toLowercase = false) :
    sqlText toLowercase q { params with filterVal := val } = sqlText toLowercase q params := by
  have hcondition : condition (params.op toLowercase) { params with filterVal := val }.val =
      condition (params.op toLowercase) params.val := (condition_other h').trans (condition_other h).symm
  show (if params.hasFilter then _ else _) = _
  unfold sqlText
  rw [← hcondition]
  rfl

theorem Accepted.with_val (h : Accepted connected table params schema name) (val : Option Text) :
    Accepted connected table { params with filterVal := val } schema name :=
  ⟨h.table, h.connected, h.limit, h.offset, h.column⟩

end Rows

/-- A query that is sent has one placeholder for each parameter that is bound, quotes what has been validated and
asked for, and does not depend on a value that is bound. -/
def WellFormed (toLowercase : Text → Text) (connected : Except DbError Unit) (table : Text) (params : RowsParams) :
    Prop :=
  ∀ sql bound, rows toLowercase connected table params = .ok (sql, bound) →
    placeholders sql = bound.map (fun _ => ['1']) ∧
    (∃ schema name, splitTable table = .ok (schema, name) ∧ quotedNames sql = schema :: name :: params.columns ∧
      ∀ identifier ∈ quotedNames sql, validateIdentifier identifier = .ok ()) ∧
    ∀ val, params.nullTest toLowercase = false → { params with filterVal := val }.nullTest toLowercase = false →
      ∃ bound', rows toLowercase connected table { params with filterVal := val } = .ok (sql, bound')

/-- Queries are well formed exactly where no null test is filtered for. -/
theorem rows_wellFormed_iff (toLowercase : Text → Text) (connected : Except DbError Unit) (table : Text)
    (params : RowsParams) : WellFormed toLowercase connected table params ↔
      ∀ schema name, Accepted connected table params schema name → params.hasFilter = true →
        params.nullTest toLowercase = false := by
  constructor
  · intro h schema name haccepted hfilter
    obtain ⟨hplaceholders, -⟩ := h _ _ (rows_ok.mpr ⟨schema, name, haccepted, rfl⟩)
    rw [placeholders, marks_sqlText haccepted, hfilter, RowsParams.bound, hfilter] at hplaceholders
    cases hnull : params.nullTest toLowercase with
    | false => rfl
    | true =>
      rw [hnull] at hplaceholders
      cases hplaceholders
  · intro h sql bound hrows
    obtain ⟨schema, name, haccepted, hout⟩ := rows_ok.mp hrows
    obtain ⟨rfl, rfl⟩ := Prod.mk.inj hout
    have hmarks := marks_bound haccepted (h schema name haccepted)
    have hnames : quotedNames (sqlText toLowercase (quoteQualified schema name) params) =
        schema :: name :: params.columns := by
      rw [quotedNames, hmarks, List.filterMap_append, List.filterMap_map, List.filterMap_map]
      simp
    refine ⟨?_, ⟨schema, name, haccepted.table, hnames, ?_⟩, ?_⟩
    · rw [placeholders, hmarks, List.filterMap_append, List.filterMap_map, List.filterMap_map]
      simp
    · obtain ⟨hschema, hname⟩ := splitTable_valid haccepted.table
      rw [hnames, RowsParams.columns]
      intro identifier hmem
      rcases List.mem_cons.mp hmem with rfl | hmem
      · exact hschema
      rcases List.mem_cons.mp hmem with rfl | hmem
      · exact hname
      split at hmem
      · rename_i hfilter
        rw [List.mem_singleton.mp hmem]
        exact haccepted.column hfilter
      · cases hmem
    · intro val hnull hnull'
      exact ⟨_, rows_ok.mpr ⟨schema, name, haccepted.with_val val, by rw [sqlText_val val hnull hnull']⟩⟩

/-- A test for null binds its value, for which the text has no placeholder. -/
theorem null_test_binds : ∃ (params : RowsParams) (sql : Text),
    params = ⟨[], 50, 0, some "deleted_at".toList, some "=".toList, some "null".toList⟩ ∧
    rows id (.ok ()) "users".toList params = .ok (sql, ["null".toList]) ∧ placeholders sql = [] ∧
    ¬ WellFormed id (.ok ()) "users".toList params := by
  refine ⟨_, _, rfl, rfl, by decide +kernel, fun h => ?_⟩
  obtain ⟨hplaceholders, -⟩ := h _ _ rfl
  revert hplaceholders
  decide +kernel

end AgentGrove.Db

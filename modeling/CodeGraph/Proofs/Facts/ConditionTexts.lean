import CodeGraph.Analysis.Symbols
import CodeGraph.Proofs.Facts.Callers
import CodeGraph.Proofs.Facts.InnermostBranch
import CodeGraph.Proofs.Text.Words

/-!
# The texts of conditions

Edges are told apart by the texts of their conditions, so a condition has one text however it is
laid out. Shortening collapses the whitespace of a test and cuts what is too long. A cut may come
anywhere, also after a space or before the first character: the dots that follow are no whitespace,
so the cut text is flat again (`flat_shorten`), and it is never cut a second time
(`shorten_shorten`).
-/

namespace CodeGraph.Conditions

open Words

/-- What stands for the part of a text that was cut off. -/
def dots : List Char := ['.', '.', '.']

theorem isWord_dots : IsWord dots where
  nonempty := by simp [dots]
  solid := by
    intro c hc
    have hdot : c = '.' := by simpa [dots] using hc
    rw [hdot]
    rfl

variable {text : String} {limit : Int}

/-! ## The two outcomes -/

theorem shorten_of_le (h : ((collapse text.toList).length : Int) ≤ limit) :
    shorten text limit = String.ofList (collapse text.toList) := by
  unfold shorten
  exact if_neg (Int.not_lt.mpr h)

theorem shorten_of_lt (h : limit < (collapse text.toList).length) :
    shorten text limit =
      String.ofList ((collapse text.toList).take (limit - 3).toNat) ++ "..." := by
  unfold shorten
  exact if_pos h

theorem toList_shorten_of_lt (h : limit < (collapse text.toList).length) :
    (shorten text limit).toList = (collapse text.toList).take (limit - 3).toNat ++ dots := by
  rw [shorten_of_lt h, String.toList_append, String.toList_ofList]
  rfl

/-- A cut text has as many characters as are allowed, but at least the dots. -/
theorem length_shorten_of_lt (h : limit < (collapse text.toList).length) :
    ((shorten text limit).length : Int) = max limit 3 := by
  have hdots : dots.length = 3 := rfl
  rw [← String.length_toList, toList_shorten_of_lt h, List.length_append, List.length_take, hdots]
  omega

/-! ## Flat, short and stable -/

theorem flat_shorten (text : String) (limit : Int) : Flat (shorten text limit).toList := by
  have hflat := flat_collapse text.toList
  by_cases h : limit < (collapse text.toList).length
  · rw [toList_shorten_of_lt h]
    exact hflat.take_append isWord_dots _
  · rw [shorten_of_le (Int.not_lt.mp h), String.toList_ofList]
    exact hflat

theorem length_shorten_le (text : String) (limit : Int) :
    ((shorten text limit).length : Int) ≤ max limit 3 := by
  by_cases h : limit < (collapse text.toList).length
  · exact (length_shorten_of_lt h).le
  · have hle := Int.not_lt.mp h
    rw [shorten_of_le hle, ← String.length_toList, String.toList_ofList]
    omega

theorem shorten_of_flat (hflat : Flat text.toList) (h : (text.length : Int) ≤ limit) :
    shorten text limit = text := by
  have hsame := collapse_of_flat hflat
  rw [← String.length_toList, ← hsame] at h
  rw [shorten_of_le h, hsame, String.ofList_toList]

/-- Below three characters there is room for nothing but the dots. -/
theorem shorten_dots (h : limit < 3) : shorten "..." limit = "..." := by
  have hsame : collapse "...".toList = dots := collapse_of_flat isWord_dots.flat
  have hlength : dots.length = 3 := rfl
  have hlt : limit < (collapse "...".toList).length := by
    rw [hsame, hlength]
    exact h
  have hnone : (limit - 3).toNat = 0 := by omega
  rw [shorten_of_lt hlt, hnone]
  rfl

theorem shorten_shorten (text : String) (limit : Int) :
    shorten (shorten text limit) limit = shorten text limit := by
  by_cases h : limit < (collapse text.toList).length
  · by_cases hroom : limit < 3
    · have hnone : (limit - 3).toNat = 0 := by omega
      have hdots : shorten text limit = "..." := by
        rw [shorten_of_lt h, hnone]
        rfl
      rw [hdots, shorten_dots hroom]
    · refine shorten_of_flat (flat_shorten text limit) ?_
      rw [length_shorten_of_lt h]
      omega
  · have hle := Int.not_lt.mp h
    refine shorten_of_flat (flat_shorten text limit) ?_
    rw [shorten_of_le hle, ← String.length_toList, String.toList_ofList]
    exact hle

/-! ## Conditions of calls -/

theorem exists_shorten_of_mem_calls {m : Module} {c : CallFact} {k : Condition}
    (hc : c ∈ m.calls limit) (hk : c.condition = some k) :
    ∃ test, k.text = shorten test limit := by
  obtain ⟨f, -, hcall⟩ := List.mem_filterMap.mp hc
  obtain ⟨-, -, hcondition⟩ := Calls.ofVisit_eq_some hcall
  have hnearest : nearest m limit f.above = some k := hcondition.symm.trans hk
  obtain ⟨-, s, -, -, -, hdescribes⟩ := nearest_eq_some_iff.mp hnearest
  exact ⟨_, (describes_iff.mp hdescribes).2⟩

/-- **Texts of conditions are flat, short and stable.** A shortened text has no whitespace but
single spaces inside, and no more characters than allowed, or three if fewer are. It is the words of
the text with single spaces between them, if that is short enough, and otherwise the beginning of it
and three dots. Shortening it again changes nothing, and texts with the same words are shortened to
the same. The condition of every call is such a text, for the limit under which the calls were
read. -/
theorem texts_canonical (text : String) (limit : Int) :
    Flat (shorten text limit).toList ∧
    ((shorten text limit).length : Int) ≤ max limit 3 ∧
    (∃ ws, (∀ vs, Spelled text.toList vs ↔ vs = ws) ∧
      (((unwords ws).length : Int) ≤ limit →
        shorten text limit = String.ofList (unwords ws)) ∧
      (limit < (unwords ws).length → shorten text limit =
        String.ofList ((unwords ws).take (max (limit - 3) 0).toNat) ++ "...") ∧
      ∀ other : String, Spelled other.toList ws → shorten other limit = shorten text limit) ∧
    shorten (shorten text limit) limit = shorten text limit ∧
    ∀ (m : Module) (settings : Except SettingsFault Settings) (asked : Option Int)
      (calls : List CallFact), Settings.conditionLimit settings asked = .ok limit →
      m.callsUnder settings asked = .ok calls → ∀ c ∈ calls, ∀ k, c.condition = some k →
        Flat k.text.toList ∧ (k.text.length : Int) ≤ max limit 3 ∧
          shorten k.text limit = k.text := by
  refine ⟨flat_shorten text limit, length_shorten_le text limit,
    ⟨words text.toList, fun vs => spelled_iff, shorten_of_le, ?_, ?_⟩,
    shorten_shorten text limit, ?_⟩
  · intro hlong
    have hcut : (max (limit - 3) 0).toNat = (limit - 3).toNat := by omega
    rw [hcut]
    exact shorten_of_lt hlong
  · intro other hother
    have hsame : collapse other.toList = collapse text.toList :=
      congrArg unwords (spelled_iff.mp hother).symm
    unfold shorten
    rw [hsame]
  · intro m settings asked calls hlimit hcalls c hc k hk
    have heq : m.calls limit = calls := by
      rw [Module.callsUnder, hlimit] at hcalls
      exact Except.ok.inj hcalls
    obtain ⟨test, htext⟩ := exists_shorten_of_mem_calls (heq ▸ hc) hk
    rw [htext]
    exact ⟨flat_shorten test limit, length_shorten_le test limit, shorten_shorten test limit⟩

/-- The source `function g(){ab  +  cd?f():e}`, in which a call has a long test. -/
def longTest : Module where
  path := "a.js"
  text := "function g(){ab  +  cd?f():e}"
  language := .javascript
  source :=
    [102, 117, 110, 99, 116, 105, 111, 110, 32, 103, 40, 41, 123, 97, 98, 32, 32, 43,
     32, 32, 99, 100, 63, 102, 40, 41, 58, 101, 125]
  root := ⟨"program", true, none, 0, 29,
    [⟨"function_declaration", true, none, 0, 29,
      [⟨"identifier", true, some "name", 9, 10, []⟩,
       ⟨"formal_parameters", true, some "parameters", 10, 12, []⟩,
       ⟨"statement_block", true, some "body", 12, 29,
        [⟨"expression_statement", true, none, 13, 28,
          [⟨"ternary_expression", true, none, 13, 28,
            [⟨"binary_expression", true, some "condition", 13, 22, []⟩,
             ⟨"?", false, none, 22, 23, []⟩,
             ⟨"call_expression", true, some "consequence", 23, 26,
              [⟨"identifier", true, some "function", 23, 24, []⟩,
               ⟨"arguments", true, some "arguments", 24, 26, []⟩]⟩,
             ⟨":", false, none, 26, 27, []⟩,
             ⟨"identifier", true, some "alternative", 27, 28, []⟩]⟩]⟩]⟩]⟩]⟩

/-- Of five characters, two are left of a longer test; a shorter one is kept. -/
theorem longTest_canonical :
    shorten "ab  +  cd" 5 = "ab..." ∧ shorten "\tab +\ncd " 5 = "ab..." ∧
    shorten " a\n+  b" 5 = "a + b" ∧
    ∃ c, longTest.callsUnder (.ok .standard) (some 5) = .ok [c] ∧
      c.condition = some ⟨"ab...", .ternaryThen⟩ ∧ shorten "ab..." 5 = "ab..." := by
  have hcalls : longTest.calls 5 = [⟨"g", "f", none, 1, some ⟨"ab...", .ternaryThen⟩⟩] := by
    decide +kernel
  have hunder : longTest.callsUnder (.ok .standard) (some 5) =
      .ok [⟨"g", "f", none, 1, some ⟨"ab...", .ternaryThen⟩⟩] := congrArg Except.ok hcalls
  obtain ⟨-, -, ⟨ws, hws, -, hlong, hother⟩, -, hconditions⟩ := texts_canonical "ab  +  cd" 5
  obtain ⟨-, -, ⟨vs, hvs, hshort, -⟩, -⟩ := texts_canonical " a\n+  b" 5
  obtain rfl : [['a', 'b'], ['+'], ['c', 'd']] = ws := (hws _).mp (spelled_iff.mpr (by decide))
  obtain rfl : [['a'], ['+'], ['b']] = vs := (hvs _).mp (spelled_iff.mpr (by decide))
  have hcut : shorten "ab  +  cd" 5 = "ab..." := hlong (by decide)
  have hspelled : Spelled "\tab +\ncd ".toList [['a', 'b'], ['+'], ['c', 'd']] :=
    spelled_iff.mpr (by decide)
  refine ⟨hcut, (hother _ hspelled).trans hcut, hshort (by decide), _, hunder, rfl, ?_⟩
  exact (hconditions longTest (.ok .standard) (some 5) _ rfl hunder _ List.mem_cons_self _ rfl).2.2

end CodeGraph.Conditions

import Lrndis.App.CgiProofs
import Lrndis.Http.Request

/-!
# What a handler of a CGI gets

The URI up to the question mark decides which handler is called, and the parameters are those
of the query string behind it.
-/

namespace Lrndis.Http

open Mem CString

variable {W : Type}

theorem texts_of_denotes {n : Nat} {m : Buffer n} {pairs : List (Nat × Option Nat)}
    {ps : List Cgi.Parameter} (h : List.Forall₂ (Cgi.Denotes m) pairs ps) :
    (pairs.map fun pair => (read m pair.1, pair.2.map (read m))) = ps.map fun q => (q.name, q.value) := by
  induction h with
  | nil => rfl
  | cons hpair _ ih =>
    have hvalue : ∀ {a : Option Nat} {b : Option (List UInt8)}, Option.Rel (At m.byte) a b →
        a.map (read m) = b := by
      rintro _ _ (hat | _)
      · exact congrArg some hat.read_eq
      · rfl
    rw [List.map_cons, List.map_cons, ih, hpair.name.read_eq, hvalue hpair.value]

theorem dispatchCgi_query (env : Env W) (w : W) {path query : List UInt8} (hpath : 0x3F ∉ path)
    (hzero : 0 ∉ path ++ 0x3F :: query) :
    dispatchCgi env w (path ++ 0x3F :: query) =
      match env.cgiNames.findIdx? (· = path) with
      | some i =>
        env.cgiHandler w i
          ((Cgi.parameters Cgi.lwipHttpdMaxCgiParameters query).map fun q => (q.name, q.value))
      | none => (path, w) := by
  have hread : read (uriBuffer (path ++ 0x3F :: query)) 0 = path ++ 0x3F :: query := by
    rw [CString.read, List.drop_zero]
    exact Text.takeWhile_append_cons hzero
  have hat : At (uriBuffer (path ++ 0x3F :: query)).byte 0 (path ++ 0x3F :: query) := by
    have hat := at_read (uriBuffer (path ++ 0x3F :: query)) 0
    rwa [hread] at hat
  have hcut : cutParams (uriBuffer (path ++ 0x3F :: query)) =
      ((uriBuffer (path ++ 0x3F :: query)).setByte (0 + path.length) 0, some (0 + path.length + 1)) := by
    rw [cutParams, hat.strchr_some hpath]
  obtain ⟨hbase, hparams⟩ := hat.cut_setByte
  unfold dispatchCgi
  rw [hcut]
  simp only
  generalize (uriBuffer (path ++ 0x3F :: query)).setByte (0 + path.length) 0 = m at hbase hparams
  rw [hbase.read_eq]
  cases hfind : env.cgiNames.findIdx? (· = path) with
  | none => rfl
  | some i =>
    have hspec := Cgi.extractUriParameters_spec Cgi.lwipHttpdMaxCgiParameters m
      (some (0 + path.length + 1))
    simp only
    rw [texts_of_denotes hspec, Cgi.query, hparams.read_eq]

end Lrndis.Http

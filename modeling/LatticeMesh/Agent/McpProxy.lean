import Mathlib
import LatticeMesh.Lib.Json

/-!
# The MCP proxy

`proxy.go` is an HTTP proxy in front of an agent.
-/

namespace LatticeMesh.McpProxy

open Json List

structure MCPServer where
  name : String
  endpoint : String

structure AgentToolPermission where
  mcpServer : String
  tools : List String

structure AgentPolicy where
  allowedTools : List AgentToolPermission
  defaultDeny : Bool

structure PolicyConfig where
  mcpServers : List MCPServer
  agentPolicies : List AgentPolicy

def selectorMatchesAgent (_ : AgentPolicy) (_ : String) : Bool := true

def isToolAllowed (cfg : PolicyConfig) (agentName mcpServerName toolName : String) : Bool :=
  let policies := cfg.agentPolicies.filter (selectorMatchesAgent · agentName)
  if policies.any fun policy =>
      !policy.defaultDeny || policy.allowedTools.any fun perm =>
        perm.mcpServer = mcpServerName && perm.tools.any fun t => t = "*" || t = toolName then
    true
  else
    !policies.any (·.defaultDeny)

structure HostPort where
  hostname : String
  port : String
  deriving DecidableEq

structure URL where
  scheme : String
  host : HostPort
  deriving DecidableEq

structure Request where
  method : String
  url : URL
  requestURI : Option URL
  host : HostPort
  body : List UInt8
  bodyFails : Bool := false

structure Library where
  urlParse : String → Option URL
  decode : List UInt8 → Option Json
  fitsFloat64 : Rat → Bool
  summarizeParams : Option (List (String × Json)) → String

def mcpServerForHost (lib : Library) (cfg : PolicyConfig) (host : String) : Option MCPServer :=
  cfg.mcpServers.find? fun srv => (lib.urlParse srv.endpoint).any (·.host.hostname = host)

structure McpParams where
  name : String := ""
  arguments : Option (List (String × Json)) := none

structure McpRequest where
  method : String := ""
  params : McpParams := {}

def paramsFields (lib : Library) : List (String × Decoder McpParams) :=
  [("name", .field McpParams.name (fun p name => { p with name }) .string),
    ("arguments", .field McpParams.arguments (fun p arguments => { p with arguments })
      (.map lib.fitsFloat64))]

def requestFields (lib : Library) : List (String × Decoder McpRequest) :=
  [("method", .field McpRequest.method (fun r method => { r with method }) .string),
    ("params", .field McpRequest.params (fun r params => { r with params })
      (.struct (paramsFields lib)))]

def unmarshal (lib : Library) (body : List UInt8) : Option McpRequest :=
  match lib.decode body with
  | none => none
  | some v =>
    if (Decoder.struct (requestFields lib)).fails v then none
    else some ((Decoder.struct (requestFields lib)).store {} v)

def extractMCPTool (lib : Library) (body : List UInt8) :
    String × Option (List (String × Json)) :=
  match unmarshal lib body with
  | none => ("", none)
  | some req =>
    if req.method ≠ "tools/call" then ("", none) else (req.params.name, req.params.arguments)

inductive Verdict where
  | allow
  | deny

structure MCPAuditEvent where
  agentName : String
  mcpServer : String
  tool : String
  paramSummary : String
  verdict : Verdict
  denyReason : String := ""

inductive Outcome where
  | error (message : String) (status : Nat)
  | forwarded (target : URL) (body : List UInt8)
  | tunnelled (host : HostPort)
  deriving DecidableEq

def targetURL (req : Request) : URL :=
  match req.requestURI with
  | none => { scheme := "http", host := req.host }
  | some u => if u.host = ⟨"", ""⟩ then { scheme := "http", host := req.host } else u

def readBody (req : Request) : Option (List UInt8) :=
  if req.bodyFails ∧ req.body.length < 2 ^ 20 then none else some (req.body.take (2 ^ 20))

def toolNotAllowed : String :=
  "\x7b\"jsonrpc\":\"2.0\",\"error\":\x7b\"code\":-32603,\"message\":" ++
    "\"Lattice AgentPolicy: tool not allowed\"\x7d\x7d"

def handleHTTP (lib : Library) (cfg : PolicyConfig) (agentName : String) (req : Request) :
    List MCPAuditEvent × Outcome :=
  match mcpServerForHost lib cfg req.url.host.hostname with
  | none => ([], .forwarded (targetURL req) req.body)
  | some mcpSrv =>
    if req.method ≠ "POST" then ([], .forwarded (targetURL req) req.body)
    else
      match readBody req with
      | none => ([], .error "failed to read body" 502)
      | some body =>
        let (toolName, params) := extractMCPTool lib body
        if toolName = "" then ([], .forwarded (targetURL req) body)
        else
          let event := { agentName, mcpServer := mcpSrv.name, tool := toolName
                         paramSummary := lib.summarizeParams params, verdict := .allow }
          if isToolAllowed cfg agentName mcpSrv.name toolName = false then
            ([{ event with verdict := .deny, denyReason := "AgentPolicy denied" }],
              .error toolNotAllowed 403)
          else ([event], .forwarded (targetURL req) body)

def serveHTTP (lib : Library) (cfg : PolicyConfig) (agentName : String) (req : Request) :
    List MCPAuditEvent × Outcome :=
  if req.method = "CONNECT" then ([], .tunnelled req.host) else handleHTTP lib cfg agentName req

def Outcome.isForwarded : Outcome → Bool
  | .forwarded _ _ => true
  | _ => false

def callsOf : Json → List String
  | .obj members =>
    if ((valuesOf members "method").filterMap asStr).contains "tools/call" then
      ((valuesOf members "params").filterMap asObj).flatMap fun ps =>
        (valuesOf ps "name").filterMap asStr
    else []
  | _ => []

def calledTools (lib : Library) (body : List UInt8) : List String :=
  match lib.decode body with
  | some (.arr batch) => batch.flatMap callsOf
  | some v => callsOf v
  | none => []

def URL.effectivePort (u : URL) : String :=
  if u.host.port ≠ "" then u.host.port
  else if u.scheme = "http" then "80"
  else if u.scheme = "https" then "443"
  else ""

def URL.SameServer (u e : URL) : Prop :=
  u.host.hostname.toList.map Char.toLower = e.host.hostname.toList.map Char.toLower ∧
    u.effectivePort = e.effectivePort

instance (u e : URL) : Decidable (u.SameServer e) := inferInstanceAs (Decidable (_ ∧ _))

def Targets (lib : Library) (cfg : PolicyConfig) (req : Request) (srv : MCPServer) : Prop :=
  srv ∈ cfg.mcpServers ∧ ∃ e, lib.urlParse srv.endpoint = some e ∧ (targetURL req).SameServer e

def Mediated (lib : Library) (cfg : PolicyConfig) (agentName : String) (req : Request) : Prop :=
  ∀ srv, Targets lib cfg req srv → ∀ tool ∈ calledTools lib req.body,
    isToolAllowed cfg agentName srv.name tool = false →
      (serveHTTP lib cfg agentName req).2.isForwarded = false

def Stopped (lib : Library) (cfg : PolicyConfig) (agentName : String) (req : Request) : Prop :=
  ∃ srv, mcpServerForHost lib cfg req.url.host.hostname = some srv ∧
    ∀ body, readBody req = some body →
      (extractMCPTool lib body).1 ≠ "" ∧
        isToolAllowed cfg agentName srv.name (extractMCPTool lib body).1 = false

section

variable {lib : Library} {cfg : PolicyConfig} {agentName : String} {req : Request}

theorem stopped_iff (hpost : req.method = "POST") :
    (serveHTTP lib cfg agentName req).2.isForwarded = false ↔ Stopped lib cfg agentName req := by
  unfold serveHTTP
  rw [if_neg (by rw [hpost]; decide), handleHTTP, Stopped]
  cases mcpServerForHost lib cfg req.url.host.hostname with
  | none => simp [Outcome.isForwarded]
  | some srv =>
    simp only [hpost, ne_eq, not_true_eq_false, if_false, Option.some.injEq, exists_eq_left']
    cases readBody req with
    | none => simp [Outcome.isForwarded]
    | some body =>
      simp only [Option.some.injEq, forall_eq']
      by_cases htool : (extractMCPTool lib body).1 = ""
      · simp [htool, Outcome.isForwarded]
      · cases hall : isToolAllowed cfg agentName srv.name (extractMCPTool lib body).1 <;>
          simp [htool, Outcome.isForwarded]

structure PlainCall (lib : Library) (v : Json) (tool : String) : Prop where
  members : ∃ members ps, v = .obj members ∧
    valuesOf members "method" = [.str "tools/call"] ∧
    valuesOf members "params" = [.obj ps] ∧
    valuesOf ps "name" = [.str tool] ∧
    ∀ arguments ∈ valuesOf ps "arguments", (Decoder.map lib.fitsFloat64).fails arguments = false
  tool : tool ≠ ""

theorem not_both {m x y : String} (h : foldName x ≠ foldName y) (hx : sameName m x = true) :
    sameName m y = false := by
  rw [sameName, decide_eq_true_eq] at hx
  rw [sameName, decide_eq_false_iff_not, hx]
  exact h

theorem method_storeMember (lib : Library) (r : McpRequest) (m : String × Json) :
    (Decoder.storeMember (requestFields lib) r m).method =
      if sameName m.1 "method" then Decoder.string.store r.method m.2 else r.method := by
  unfold Decoder.storeMember Decoder.lookupField requestFields
  cases hmet : sameName m.1 "method" with
  | true => simp [hmet, Decoder.field]
  | false => cases hpar : sameName m.1 "params" <;> simp [hmet, hpar, Decoder.field]

theorem params_storeMember (lib : Library) (r : McpRequest) (m : String × Json) :
    (Decoder.storeMember (requestFields lib) r m).params =
      if sameName m.1 "params" then (Decoder.struct (paramsFields lib)).store r.params m.2
      else r.params := by
  unfold Decoder.storeMember Decoder.lookupField requestFields
  cases hmet : sameName m.1 "method" with
  | true =>
    have hpar : sameName m.1 "params" = false := not_both (by decide) hmet
    simp [hmet, hpar, Decoder.field]
  | false => cases hpar : sameName m.1 "params" <;> simp [hmet, hpar, Decoder.field]

theorem name_storeMember (lib : Library) (p : McpParams) (m : String × Json) :
    (Decoder.storeMember (paramsFields lib) p m).name =
      if sameName m.1 "name" then Decoder.string.store p.name m.2 else p.name := by
  unfold Decoder.storeMember Decoder.lookupField paramsFields
  cases hname : sameName m.1 "name" with
  | true => simp [hname, Decoder.field]
  | false => cases hargs : sameName m.1 "arguments" <;> simp [hname, hargs, Decoder.field]

variable {tool : String}

theorem extract_of_plain {body : List UInt8} {v : Json} (hdec : lib.decode body = some v)
    (h : PlainCall lib v tool) :
    (extractMCPTool lib body).1 = tool := by
  obtain ⟨members, ps, rfl, hmet, hpar, hname, hargs⟩ := h.members
  have hps : (Decoder.struct (paramsFields lib)).fails (.obj ps) = false := by
    refine Decoder.fails_struct fun f hf => ?_
    simp only [paramsFields, mem_cons, not_mem_nil, or_false] at hf
    obtain rfl | rfl := hf
    · simp [hname, Decoder.field, Decoder.string]
    · exact hargs
  have hfai : (Decoder.struct (requestFields lib)).fails (.obj members) = false := by
    refine Decoder.fails_struct fun f hf => ?_
    simp only [requestFields, mem_cons, not_mem_nil, or_false] at hf
    obtain rfl | rfl := hf
    · simp [hmet, Decoder.field, Decoder.string]
    · simp [hpar, Decoder.field, hps]
  have hreq := Decoder.store_struct (method_storeMember lib) {} members
  have hreq' := Decoder.store_struct (params_storeMember lib) {} members
  rw [hmet] at hreq
  rw [hpar] at hreq'
  have hp := Decoder.store_struct (name_storeMember lib) {} ps
  rw [hname] at hp
  rw [extractMCPTool, unmarshal, hdec]
  simp only [hfai, Bool.false_eq_true, if_false, hreq, hreq', foldl_cons, foldl_nil]
  simpa [Decoder.string] using hp

theorem calledTools_of_plain {body : List UInt8} {v : Json} (hdec : lib.decode body = some v)
    (h : PlainCall lib v tool) :
    calledTools lib body = [tool] := by
  obtain ⟨members, ps, rfl, hmet, hpar, hname, -⟩ := h.members
  simp [calledTools, hdec, callsOf, hmet, hpar, hname, asStr, asObj]

structure PlainRequest (lib : Library) (cfg : PolicyConfig) (req : Request) : Prop where
  server : ∃ srv₀, mcpServerForHost lib cfg req.url.host.hostname = some srv₀ ∧
    ∀ srv, Targets lib cfg req srv → srv.name = srv₀.name
  length : req.body.length ≤ 2 ^ 20
  call : ∃ v tool, lib.decode req.body = some v ∧ PlainCall lib v tool

theorem stopped_of_plain (h : PlainRequest lib cfg req) {srv : MCPServer}
    (htgt : Targets lib cfg req srv) (htool : tool ∈ calledTools lib req.body)
    (hden : isToolAllowed cfg agentName srv.name tool = false) :
    Stopped lib cfg agentName req := by
  obtain ⟨srv₀, hsrv, honly⟩ := h.server
  obtain ⟨v, called, hdec, hpla⟩ := h.call
  rw [calledTools_of_plain hdec hpla, mem_singleton] at htool
  refine ⟨srv₀, hsrv, fun body hbody => ?_⟩
  have hread : body = req.body := by
    unfold readBody at hbody
    split at hbody
    · cases hbody
    · cases hbody
      exact take_of_length_le h.length
  rw [hread, extract_of_plain hdec hpla, ← honly srv htgt, ← htool]
  exact ⟨htool ▸ hpla.tool, hden⟩

end

def oneBody (v : Json) : Library where
  urlParse _ := some ⟨"http", ⟨"mcp.example", ""⟩⟩
  decode _ := some v
  fitsFloat64 _ := true
  summarizeParams _ := ""

def filesServer : MCPServer := ⟨"files", "http://mcp.example/mcp"⟩

def readOnly : PolicyConfig where
  mcpServers := [filesServer]
  agentPolicies := [⟨[⟨"files", ["read_file"]⟩], true⟩]

def deleteCall (arguments : Json) : Json :=
  .obj [("jsonrpc", .str "2.0"), ("id", .num 1), ("method", .str "tools/call"),
    ("params", .obj [("name", .str "delete_file"), ("arguments", arguments)])]

def absoluteForm : Request where
  method := "POST"
  url := ⟨"http", ⟨"mcp.example", ""⟩⟩
  requestURI := some ⟨"http", ⟨"mcp.example", ""⟩⟩
  host := ⟨"mcp.example", ""⟩
  body := []

def originForm : Request where
  method := "POST"
  url := ⟨"", ⟨"", ""⟩⟩
  requestURI := some ⟨"", ⟨"", ""⟩⟩
  host := ⟨"mcp.example", ""⟩
  body := []

theorem targets_files (v : Json) :
    Targets (oneBody v) readOnly absoluteForm filesServer ∧
      Targets (oneBody v) readOnly originForm filesServer := by
  have hmem : filesServer ∈ readOnly.mcpServers := mem_singleton.2 rfl
  exact ⟨⟨hmem, _, rfl, by decide⟩, ⟨hmem, _, rfl, by decide⟩⟩

theorem plainCall_delete : PlainCall (oneBody (deleteCall (.obj []))) (deleteCall (.obj []))
    "delete_file" := by
  refine ⟨⟨_, _, rfl, rfl, rfl, rfl, fun arguments h => ?_⟩, by decide⟩
  obtain rfl := mem_singleton.1 h
  rfl

end LatticeMesh.McpProxy

import DiskArcana.Core.Filter
import DiskArcana.Lib.Text

/-!
# The configuration of a client

What `config/validate.rs` reads of `disk.toml`, and the rules in the order in which it checks them; the
first rule that fails is the error. Texts of errors are left to their kind and the data in them.
-/

namespace DiskArcana.Client

open DiskArcana.Core DiskArcana.Lib DiskArcana.Lib.Text

/-- Source: `config/schema.rs`, `Direction` -/
inductive Direction where
  | receiveOnly
  | sendOnly
  | bidirectional
  | publisher
  deriving DecidableEq

/-- Source: `config/schema.rs`, `FilterMode` -/
inductive FilterMode where
  | whitelist
  | blacklist
  deriving DecidableEq

/-- Source: `config/schema.rs`, `FilterSection` -/
structure FilterSection where
  mode : FilterMode
  extensions : List (List Char)
  include_ : List (List Char)

/-- Source: `config/schema.rs`, `PublisherSection` -/
structure PublisherSection where
  signKeyRef : List Char

/-- Source: `config/schema.rs`, `ShareSection` -/
structure ShareSection where
  name : List Char
  path : List Char
  intendedDirection : Option Direction
  filter : Option FilterSection
  publisher : Option PublisherSection

/-- Source: `config/schema.rs`, `NodeSection` and `NodeDefault` -/
structure NodeSection where
  id : List Char
  tenantId : Option (List Char)
  intendedDirection : Option Direction

/-- Source: `config/schema.rs`, `LanSyncSection` -/
structure LanSyncSection where
  enabled : Bool
  advertisePort : ℕ

/-- Source: `config/schema.rs`, `EmbeddingsSection` -/
structure EmbeddingsSection where
  enabled : Bool
  modelId : List Char
  dimensions : ℕ

/-- Source: `config/schema.rs`, `DiskConfig` -/
structure DiskConfig where
  node : NodeSection
  serverAddress : List Char
  shares : List ShareSection
  lanSync : LanSyncSection
  embeddings : EmbeddingsSection

/-- Source: `config/schema.rs`, `effective_direction` -/
def ShareSection.effectiveDirection (share : ShareSection) (nodeDefault : Option Direction) :
    Option Direction := share.intendedDirection.or nodeDefault

/-! ## Validation -/

/-- What is wrong with a configuration.
Source: `config/validate.rs`, `ConfigError::Validation` -/
inductive ValidationError where
  | nodeIdEmpty
  | nodeIdTooLong (bytes : ℕ)
  | nodeIdStart (first : Char)
  | nodeIdEnd
  | nodeIdChar (c : Char)
  | addressForm (address : List Char)
  | addressHost (address : List Char)
  | addressPort (address port : List Char)
  | shareTwice (name : List Char)
  | advertisePort
  | embeddingsModel
  | embeddingsDimensions
  | shareNameEmpty
  | sharePath (name path : List Char)
  | shareDirection (name : List Char)
  | publisherMissing (name : List Char)
  | publisherUnexpected (name : List Char)
  | whitelistEmpty (name : List Char)
  | signKeyRefEmpty (name : List Char)
  deriving DecidableEq

/-- `is_ascii_lowercase` -/
def isAsciiLowercase (c : Char) : Bool := 'a' ≤ c && c ≤ 'z'

/-- Source: `config/validate.rs`, `validate_node_id` -/
def validateNodeId (id : List Char) : Except ValidationError Unit :=
  match id with
  | [] => .error .nodeIdEmpty
  | first :: _ => do
    let bytes := (String.ofList id).utf8ByteSize
    if 63 < bytes then throw (.nodeIdTooLong bytes)
    if !isAsciiLowercase first then throw (.nodeIdStart first)
    if id.getLast? = some '-' then throw .nodeIdEnd
    match id.find? fun c => !(isAsciiLowercase c || c.isDigit || c = '-') with
    | some c => throw (.nodeIdChar c)
    | none => return ()

/-- A number of 16 bits; a plus sign may come first.
Source: `u16::from_str` -/
def parseU16 (text : List Char) : Option ℕ :=
  (parseNat ((stripPrefix ['+'] text).getD text)).filter fun n => n < 2 ^ 16

/-- Source: `config/validate.rs`, `validate_server_address` -/
def validateServerAddress (address : List Char) : Except ValidationError Unit :=
  match rsplitOnce ':' address with
  | none => .error (.addressForm address)
  | some (host, port) =>
    if host.isEmpty then .error (.addressHost address)
    else if (parseU16 port).getD 0 = 0 then .error (.addressPort address port)
    else .ok ()

/-- Source: `config/validate.rs`, `validate_share_names_unique` -/
def validateShareNamesUnique (seen : List (List Char)) :
    List ShareSection → Except ValidationError Unit
  | [] => .ok ()
  | share :: shares =>
    if share.name ∈ seen then .error (.shareTwice share.name)
    else validateShareNamesUnique (share.name :: seen) shares

/-- Source: `config/validate.rs`, `validate_lan_sync` -/
def validateLanSync (lan : LanSyncSection) : Except ValidationError Unit :=
  if lan.enabled && lan.advertisePort = 0 then .error .advertisePort else .ok ()

/-- Source: `config/validate.rs`, `validate_embeddings` -/
def validateEmbeddings (embeddings : EmbeddingsSection) : Except ValidationError Unit :=
  if !embeddings.enabled then .ok ()
  else if (trimChars isTrimmed embeddings.modelId).isEmpty then .error .embeddingsModel
  else if embeddings.dimensions = 0 then .error .embeddingsDimensions
  else .ok ()

/-- Source: `config/validate.rs`, `validate_share` -/
def validateShare (nodeDefault : Option Direction) (share : ShareSection) :
    Except ValidationError Unit := do
  if share.name.isEmpty then throw .shareNameEmpty
  if share.path.head? ≠ some '/' then throw (.sharePath share.name share.path)
  match share.effectiveDirection nodeDefault with
  | none => throw (.shareDirection share.name)
  | some direction =>
    if direction = .publisher ∧ share.publisher.isNone then throw (.publisherMissing share.name)
    if direction ≠ .publisher ∧ share.publisher.isSome then throw (.publisherUnexpected share.name)
    if share.filter.any fun f => f.mode = .whitelist && f.extensions.isEmpty && f.include_.isEmpty then
      throw (.whitelistEmpty share.name)
    if share.publisher.any fun p => p.signKeyRef.isEmpty then throw (.signKeyRefEmpty share.name)

/-- Source: `config/validate.rs`, `validate` -/
def validate (cfg : DiskConfig) : Except ValidationError Unit := do
  validateNodeId cfg.node.id
  validateServerAddress cfg.serverAddress
  validateShareNamesUnique [] cfg.shares
  validateLanSync cfg.lanSync
  validateEmbeddings cfg.embeddings
  cfg.shares.forM (validateShare cfg.node.intendedDirection)

/-! ## What a valid configuration has -/

theorem of_validateShareNamesUnique {seen : List (List Char)} {shares : List ShareSection}
    (h : validateShareNamesUnique seen shares = .ok ()) :
    (shares.map ShareSection.name).Nodup ∧ ∀ share ∈ shares, share.name ∉ seen := by
  induction shares generalizing seen with
  | nil => exact ⟨List.nodup_nil, fun share h => nomatch h⟩
  | cons first shares ih =>
      unfold validateShareNamesUnique at h
      split_ifs at h with hseen
      obtain ⟨hnodup, hnew⟩ := ih h
      constructor
      · rw [List.map_cons, List.nodup_cons]
        refine ⟨fun hmem => ?_, hnodup⟩
        obtain ⟨share, hshare, hname⟩ := List.mem_map.mp hmem
        exact hnew share hshare (by rw [hname]; exact List.mem_cons_self)
      · intro share hshare
        rcases List.mem_cons.mp hshare with rfl | hrest
        · exact hseen
        · exact fun hmem => hnew share hrest (List.mem_cons_of_mem _ hmem)

/-- The shares of a valid configuration have different names. -/
theorem nodup_of_validate {cfg : DiskConfig} (h : validate cfg = .ok ()) :
    (cfg.shares.map ShareSection.name).Nodup := by
  unfold validate at h
  rcases hid : validateNodeId cfg.node.id with e | _
  · rw [hid] at h
    cases h
  rcases haddress : validateServerAddress cfg.serverAddress with e | _
  · rw [hid, haddress] at h
    cases h
  rcases hunique : validateShareNamesUnique [] cfg.shares with e | _
  · rw [hid, haddress, hunique] at h
    cases h
  exact (of_validateShareNamesUnique hunique).1

end DiskArcana.Client

import StratumServer.Payout.Plan
import StratumServer.ShareProcessing.Difficulty

/-!
# The configuration

The sections of `config.toml` that decide about payouts and difficulties, and
`Config::load`: the file, the overrides by environment variables, the network
and the path of the database.  What comes from outside is a `Host`: the parsed
file, the environment, the parsers of the standard library and the file
system.

`load` checks the name of the network and nothing else.  Every fee section
that the file can hold is accepted, see `load_plainHost`.
-/

namespace StratumServer

/-- `constants::DUST_LIMIT`. -/
def dustLimit : Int := 546

/-- `FeeSettings`, with the defaults of the source. -/
structure FeeSettings where
  enabled : Bool := true
  feeBps : UInt32 := 100
  feeAddress : Option String := none
  feeScriptHex : Option String := none
  deriving DecidableEq, Repr

/-- `PplnsSettings` without the section on banning. -/
structure PplnsSettings where
  nMultiplier : ℚ := 2
  minPayoutSat : Int := dustLimit
  payoutEnabled : Bool := true
  minConfirmations : Nat := 100
  deriving DecidableEq, Repr

/-- `Config`, the contents of `config.toml`, with the sections above. -/
structure TomlConfig where
  sqlitePath : String := ""
  network : String := ""
  rpcUrl : String := "http://127.0.0.1:10604"
  vardiff : VarDiffConfig := { initialPct := 1 / 100 }
  fee : FeeSettings := {}
  pplns : PplnsSettings := {}
  deriving DecidableEq, Repr

/-- Why a configuration is refused. -/
inductive ConfigError
  /-- The file cannot be read or parsed. -/
  | file
  | unknownPort (port : Option Nat)
  | directory (path : String)
  | network (network : String)
  deriving DecidableEq, Repr

/-- What `Config::load` takes from outside. -/
structure Host where
  /-- The file, after `toml::from_str`. -/
  file : Option TomlConfig
  env : String → Option String
  parseU32 : String → Option UInt32
  parseI64 : String → Option Int
  parseF64 : String → Option ℚ
  /-- The port of an URL. -/
  port : String → Option Nat
  /-- `create_dir_all` on the directory of the path. -/
  createParent : String → Bool

namespace TomlConfig

/-- The overrides for the fee.  A rate that is not a number is ignored. -/
def overrideFee (host : Host) (fee : FeeSettings) : FeeSettings where
  enabled := match host.env "POOL_FEE_ENABLED" with
    | some val => val == "true" || val == "1"
    | none => fee.enabled
  feeBps := ((host.env "POOL_FEE_BPS").bind host.parseU32).getD fee.feeBps
  feeAddress := (host.env "POOL_FEE_ADDRESS").or fee.feeAddress
  feeScriptHex := fee.feeScriptHex

/-- The overrides for the payout scheme. -/
def overridePplns (host : Host) (pplns : PplnsSettings) : PplnsSettings :=
  { pplns with
    nMultiplier := ((host.env "POOL_PPLNS_N_MULTIPLIER").bind
      host.parseF64).getD pplns.nMultiplier
    minPayoutSat := ((host.env "POOL_PPLNS_MIN_PAYOUT_SAT").bind
      host.parseI64).getD pplns.minPayoutSat }

/-- The overrides by environment variables. -/
def override (host : Host) (cfg : TomlConfig) : TomlConfig :=
  { cfg with
    sqlitePath := (host.env "DATABASE_PATH").getD cfg.sqlitePath
    rpcUrl := (host.env "BITCOIND_RPC_URL").getD cfg.rpcUrl
    fee := overrideFee host cfg.fee
    pplns := overridePplns host cfg.pplns }

/-- `detect_network_from_rpc_port`. -/
def detectNetworkFromRpcPort (host : Host) (rpcUrl : String) :
    Except ConfigError String :=
  match host.port rpcUrl with
  | some 10604 => .ok "mainnet"
  | some 11604 => .ok "testnet"
  | some 12604 => .ok "regtest"
  | port => .error (.unknownPort port)

/-- `default_db_path_for_network`. -/
def defaultDbPathForNetwork (network : String) : String :=
  s!"./dbs/{network}/stratum-accounting.sqlite3"

/-- Whether the name of the database is replaced. -/
def isDefaultDbPath (path : String) : Bool :=
  path.contains "stratum-accounting" || path.isEmpty

/-- `Config::load`. -/
def load (host : Host) : Except ConfigError TomlConfig := do
  let some file := host.file | throw .file
  let cfg := override host file
  let network ← if cfg.network.isEmpty then
      detectNetworkFromRpcPort host cfg.rpcUrl
    else pure cfg.network
  let sqlitePath := if isDefaultDbPath cfg.sqlitePath then
      defaultDbPathForNetwork network
    else cfg.sqlitePath
  if !host.createParent sqlitePath then throw (.directory sqlitePath)
  if !(["mainnet", "testnet", "regtest"].contains network) then
    throw (.network network)
  return { cfg with network, sqlitePath }

/-- The settings that `main` gives to the payout handler and to the payout
route. -/
def payoutSettings (cfg : TomlConfig) : PayoutSettings where
  feeBps := cfg.fee.feeBps.toNat
  feeAddress := cfg.fee.feeAddress
  minPayoutSat := cfg.pplns.minPayoutSat
  nMultiplier := cfg.pplns.nMultiplier

/-- A host without environment variables, with the file given. -/
def plainHost (cfg : TomlConfig) : Host where
  file := some cfg
  env _ := none
  parseU32 _ := none
  parseI64 _ := none
  parseF64 _ := none
  port _ := none
  createParent _ := true

/-- A file that names the network is accepted, whatever its sections are. -/
theorem load_plainHost (cfg : TomlConfig) (hnetwork : cfg.network = "mainnet") :
    load (plainHost cfg) = .ok { cfg with
      sqlitePath := if isDefaultDbPath cfg.sqlitePath then
          defaultDbPathForNetwork cfg.network
        else cfg.sqlitePath } := by
  have hoverride : override (plainHost cfg) cfg = cfg := rfl
  have hfile : (plainHost cfg).file = some cfg := rfl
  unfold load
  simp only [hfile, hoverride, hnetwork]
  rfl

end TomlConfig

end StratumServer

import HexRules.Document.Schema
import HexRules.Logging
import HexRules.Main
import HexRules.Random.Congruential
import HexRules.Random.Scripted
import HexRules.Proofs.EagerScope
import HexRules.Proofs.ChainBindings
import HexRules.Proofs.DealtBoard
import HexRules.Proofs.PartialSelection
import HexRules.Proofs.Selectable
import HexRules.Proofs.RuleSize
import HexRules.Proofs.ClosedWorld
import HexRules.Proofs.RuleGrammar
import HexRules.Proofs.Progress
import HexRules.Proofs.QiParity
import HexRules.Proofs.ClickOrder
import HexRules.Proofs.CandidateOrder
import HexRules.Proofs.OpenRuns
import HexRules.Proofs.SelectConditions
import HexRules.Proofs.Conservation
import HexRules.Proofs.MetalOrder
import HexRules.Proofs.FreedPieces
import HexRules.Proofs.MoveSearch
import HexRules.Proofs.Playthrough
import HexRules.Proofs.UnfailingPlay
import HexRules.Proofs.Injections
import HexRules.Proofs.FailedLoads
import HexRules.Proofs.SeedHistory
import HexRules.Proofs.FramedBlocks
import HexRules.Proofs.PrintedNames
import HexRules.Proofs.SharedDefinition
import HexRules.Proofs.FirstServed
import HexRules.Proofs.LeastMap
import HexRules.Proofs.SearchLoop
import HexRules.Proofs.Flattening
import HexRules.Proofs.DealableBanks
import HexRules.Proofs.Observations
import HexRules.Proofs.BankCounts

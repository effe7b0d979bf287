import Catapult.Cache.AccountRemovals
import Catapult.Cache.HashCache
import Catapult.Cache.HighValueAccounts
import Catapult.Cache.StateHash
import Catapult.CacheTx.MemoryPtCache
import Catapult.Catparser.ExpansionOrder
import Catapult.Catparser.InlineTemplate
import Catapult.Chain.ChainSynchronizer
import Catapult.Chain.CheckDifficulties
import Catapult.Chain.FinalizedBound
import Catapult.Chain.ForkPoint
import Catapult.Chain.Termination
import Catapult.Chain.UnconfirmedState
import Catapult.Consumers.ChainProgress
import Catapult.Currency.Conservation
import Catapult.DeltaSet.BaseSet
import Catapult.Disruptor.Draining
import Catapult.Extensions.ConnectionAging
import Catapult.Finalization.Estimate
import Catapult.Finalization.MessageFactory
import Catapult.Finalization.Orchestrator
import Catapult.Finalization.ProofByHeight
import Catapult.Finalization.ProofBytes
import Catapult.Finalization.ProofConflicts
import Catapult.Finalization.RoundWindow
import Catapult.Finalization.VotingSet
import Catapult.Importance.PosImportanceCalculator
import Catapult.Io.BlockChain
import Catapult.Io.FileQueueDelivery
import Catapult.Ionet.PacketFraming
import Catapult.Ionet.PacketPayloadParser
import Catapult.Ionet.RateMonitor
import Catapult.Lock.SecretLock
import Catapult.Model.EntityGrammar
import Catapult.Model.PoppedStatements
import Catapult.Mosaic.Circulation
import Catapult.Multisig.Cosignatures
import Catapult.Multisig.Rollback
import Catapult.Namespaces.Lifetimes
import Catapult.Namespaces.SerializerRoundTrip
import Catapult.PartialTransactions.LostCosignatures
import Catapult.Recovery.ExactlyOnce
import Catapult.Restrictions.MosaicRestrictionRuns
import Catapult.Restrictions.Rollback
import Catapult.Sdk.MerkleProof
import Catapult.Sdk.MetadataUpdate
import Catapult.Sdk.NegativeProof
import Catapult.Sdk.VotingKeysGenerator
import Catapult.State.AccountStateRoundTrip
import Catapult.State.BalanceLedger
import Catapult.State.CopyAssignment
import Catapult.State.HistoryOperations
import Catapult.State.MosaicMapRefinement
import Catapult.State.VotingKeys
import Catapult.Tree.EncodedKey
import Catapult.Tree.NodePath
import Catapult.Tree.PackedPath
import Catapult.Tree.SerializerRoundTrip
import Catapult.Utils.ConfigurationValueParsers

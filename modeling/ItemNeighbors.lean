import ItemNeighbors.CommandLine.FileTree
import ItemNeighbors.Duration
import ItemNeighbors.Main
import ItemNeighbors.Proofs.BuiltNeighborhoods
import ItemNeighbors.Proofs.RatingOrder
import ItemNeighbors.Proofs.FinishedRuns
import ItemNeighbors.Proofs.MatrixShape
import ItemNeighbors.Proofs.BuildHistories
import ItemNeighbors.Proofs.Lifecycle
import ItemNeighbors.Proofs.RetriedBuilds
import ItemNeighbors.Proofs.LeftOutPairs
import ItemNeighbors.Proofs.NormalizedSnapshots
import ItemNeighbors.Proofs.TableLayouts
import ItemNeighbors.Proofs.WrittenFiles
import ItemNeighbors.Proofs.ReportTexts
import ItemNeighbors.Proofs.TopNeighbors
import ItemNeighbors.Proofs.SymmetricMatrices
import ItemNeighbors.Proofs.CommonUsers
import ItemNeighbors.Proofs.FailedCalls
import ItemNeighbors.Proofs.StoppedRuns
import ItemNeighbors.Proofs.MissingSets
import ItemNeighbors.Proofs.Promises
import ItemNeighbors.Proofs.FrozenVectors
import ItemNeighbors.Proofs.CursorWalks
import ItemNeighbors.Proofs.StableGrouping
import ItemNeighbors.Proofs.TrainedMeans
import ItemNeighbors.Proofs.FirstBadRecords
import ItemNeighbors.Proofs.PairCounts

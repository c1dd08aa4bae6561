import PagedIndex.Bytes.Hex
import PagedIndex.Key.ByteString
import PagedIndex.Key.Integer
import PagedIndex.LogFilter
import PagedIndex.Node.Siblings
import PagedIndex.Node.Text
import PagedIndex.Pool.Latch
import PagedIndex.Pool.Nodes
import PagedIndex.Proofs.Disk.Corruption
import PagedIndex.Proofs.Disk.Recycling
import PagedIndex.Proofs.Disk.Store
import PagedIndex.Proofs.Node.Contracts
import PagedIndex.Proofs.Node.Merging
import PagedIndex.Proofs.Node.OrderedMap
import PagedIndex.Proofs.Node.Redistribution
import PagedIndex.Proofs.Node.Restamping
import PagedIndex.Proofs.Node.Splitting
import PagedIndex.Proofs.Pool.Durability
import PagedIndex.Proofs.Pool.Flushing
import PagedIndex.Proofs.Pool.Refusals
import PagedIndex.Proofs.Pool.Sharing
import PagedIndex.Proofs.Pool.Victims
import PagedIndex.Proofs.Tree.Runs
import PagedIndex.Proofs.Node.Footprint
import PagedIndex.Proofs.Node.Reversal
import PagedIndex.Proofs.Node.Refinement
import PagedIndex.Proofs.Node.Occupancy
import PagedIndex.Proofs.Pool.Exhaustion
import PagedIndex.Proofs.Disk.Counting
import PagedIndex.Proofs.Key.IntegerOrder
import PagedIndex.Proofs.Node.Regions
